import DomainLang.Proofs.Syntax.Nodes
import DomainLang.Proofs.Syntax.Spans

/-!
# What numbering does to a tree

Numbering, in every mode and from every cursor, keeps the words of a piece of syntax, gives its
nodes consecutive ids in their order, and opens lines for the spans that have one of their own. A
mode that does not look at the lines moves all spans in the same way, so that a tree which is
moved to a file lies in that file as a whole, and a fragment stands at its anchor as a whole. A
tree with fewer nodes than there are ids gets distinct ones.

Numbering also passes by everything that two pieces with the same words can differ in: where their
ids and their spans are equal, the pieces are. Both are said about a stretch of the traversal
(`Numbering.Visits`). Two stretches in a row make one, so each kind of syntax is treated by
listing its parts in the order in which they are numbered.
-/

namespace DomainLang.Syntax

/-- Where the ids of the nodes and the spans stand in front of equal sequences, `same` holds and
equal sequences are left. -/
def Pins (nodes others : List Node) (spans otherSpans : List Span) (same : Prop) : Prop :=
  ∀ ⦃ids otherIds : List NodeId⦄ ⦃rest otherRest : List Span⦄,
    nodes.map Node.id ++ ids = others.map Node.id ++ otherIds →
    spans ++ rest = otherSpans ++ otherRest → same ∧ ids = otherIds ∧ rest = otherRest

/-- What is left for the next stretch is equal as well. -/
theorem Pins.append {nodes others nextNodes nextOthers : List Node}
    {spans otherSpans nextSpans nextOtherSpans : List Span} {same next : Prop}
    (first : Pins nodes others spans otherSpans same)
    (second : Pins nextNodes nextOthers nextSpans nextOtherSpans next) :
    Pins (nodes ++ nextNodes) (others ++ nextOthers) (spans ++ nextSpans)
      (otherSpans ++ nextOtherSpans) (same ∧ next) := by
  intro ids otherIds rest otherRest sameIds sameSpans
  simp only [List.map_append, List.append_assoc] at sameIds sameSpans
  obtain ⟨same, sameIds, sameSpans⟩ := first sameIds sameSpans
  obtain ⟨next, sameIds, sameSpans⟩ := second sameIds sameSpans
  exact ⟨⟨same, next⟩, sameIds, sameSpans⟩

namespace Numbering

@[simp] theorem leaves_pure {α : Type} (value : α) (cursor : Cursor) :
    leaves (pure value) cursor = cursor :=
  rfl

@[simp] theorem leaves_bind {α β : Type} (first : Numbering α) (next : α → Numbering β)
    (cursor : Cursor) :
    leaves (first >>= next) cursor = leaves (next (first.output cursor)) (first.leaves cursor) :=
  rfl

@[simp] theorem leaves_map {α β : Type} (change : α → β) (step : Numbering α) (cursor : Cursor) :
    leaves (change <$> step) cursor = step.leaves cursor :=
  rfl

/-- What numbering changes in a piece of syntax: its nodes, its spans, and those spans that have a
line of their own. -/
structure Marks where
  nodes : List Node := []
  spans : List Span := []
  lines : List Span := []

/-- A stretch of the traversal turns `before` into `after`: the nodes get consecutive ids, all
spans are moved in the same way if the mode does so, and a line is opened for each span that has
one of its own. -/
structure Changes (mode : SpanMode) (start : Cursor) (before after : Marks) (stop : Cursor) :
    Prop where
  ids : after.nodes.map Node.id = idsFrom start.next before.nodes
  next : stop.next = advanced start.next before.nodes
  moved : mode.Steady → after.spans = before.spans.map (mode.place 0)
  made : mode.Makes after.spans
  line : stop.line = opened start.line before.lines
  lines : after.lines = placed mode start.line before.lines

/-- Stretches in a row change what is in the one and then in the other. -/
theorem Changes.append {mode : SpanMode} {start middle stop : Cursor}
    {before after nextBefore nextAfter : Marks} (first : Changes mode start before after middle)
    (second : Changes mode middle nextBefore nextAfter stop) :
    Changes mode start
      ⟨before.nodes ++ nextBefore.nodes, before.spans ++ nextBefore.spans,
        before.lines ++ nextBefore.lines⟩
      ⟨after.nodes ++ nextAfter.nodes, after.spans ++ nextAfter.spans,
        after.lines ++ nextAfter.lines⟩ stop where
  ids := by rw [List.map_append, first.ids, second.ids, first.next, idsFrom_append]
  next := by rw [second.next, first.next, advanced_append]
  moved steady := by rw [first.moved steady, second.moved steady, List.map_append]
  made := (mode.makes_append ..).mpr ⟨first.made, second.made⟩
  line := by rw [second.line, first.line, opened_append]
  lines := by rw [first.lines, second.lines, first.line, placed_append]

/-- A stretch of the traversal over a piece of syntax, next to another piece with the same words:
the words stay what they are, and `same` holds where ids and spans are equal. -/
structure Visits (mode : SpanMode) (start : Cursor) (before after : Marks) (stop : Cursor)
    (others : List Node) (otherSpans : List Span) (words same : Prop) : Prop
    extends Changes mode start before after stop where
  words : words
  pins : Pins before.nodes others before.spans otherSpans same

namespace Visits

variable {mode : SpanMode} {start middle stop : Cursor} {before after : Marks}
  {others : List Node} {otherSpans : List Span} {words same : Prop}

/-- Stretches in a row are one stretch. -/
theorem append {nextBefore nextAfter : Marks} {nextOthers : List Node}
    {nextOtherSpans : List Span} {nextWords next : Prop}
    (first : Visits mode start before after middle others otherSpans words same)
    (second : Visits mode middle nextBefore nextAfter stop nextOthers nextOtherSpans nextWords
      next) :
    Visits mode start
      ⟨before.nodes ++ nextBefore.nodes, before.spans ++ nextBefore.spans,
        before.lines ++ nextBefore.lines⟩
      ⟨after.nodes ++ nextAfter.nodes, after.spans ++ nextAfter.spans,
        after.lines ++ nextAfter.lines⟩
      stop (others ++ nextOthers) (otherSpans ++ nextOtherSpans) (words ∧ nextWords)
      (same ∧ next) :=
  ⟨first.toChanges.append second.toChanges, ⟨first.words, second.words⟩,
    first.pins.append second.pins⟩

theorem imp {nextWords next : Prop}
    (visits : Visits mode start before after stop others otherSpans words same)
    (ofWords : words → nextWords) (ofSame : same → next) :
    Visits mode start before after stop others otherSpans nextWords next := by
  refine ⟨visits.toChanges, ofWords visits.words, ?_⟩
  intro ids otherIds rest otherRest sameIds sameSpans
  obtain ⟨same, left⟩ := visits.pins sameIds sameSpans
  exact ⟨ofSame same, left⟩

/-- A piece of syntax that is one case of a larger kind. -/
theorem wrap {α β : Type} {first second item other : α}
    (visits : Visits mode start before after stop others otherSpans (first = second)
      (item = other)) (make : α → β) :
    Visits mode start before after stop others otherSpans (make first = make second)
      (make item = make other) :=
  visits.imp (congrArg make) (congrArg make)

/-- Where there is nothing to number, the words say it all. -/
theorem nil (mode : SpanMode) (cursor : Cursor) (kept : words) (holds : same) :
    Visits mode cursor {} {} cursor [] [] words same :=
  ⟨⟨rfl, rfl, fun _ => rfl, mode.makes_nil, rfl, rfl⟩, kept,
    fun _ _ _ _ sameIds sameSpans => ⟨holds, sameIds, sameSpans⟩⟩

/-- A stretch on a line that is opened for a span. -/
theorem onLine (span : Span)
    (visits : Visits mode (leaves newLine start) before after stop others otherSpans words same) :
    Visits mode start { before with lines := span :: before.lines }
      { after with lines := mode.place (leaves newLine start).line span :: after.lines } stop others
      otherSpans words same :=
  { visits with lines := congrArg (_ :: ·) visits.lines }

/-- A node gets the next id, and its span is placed. -/
theorem node (mode : SpanMode) (cursor : Cursor) (existing other : Node) :
    Visits mode cursor { nodes := [existing], spans := existing.spans }
      { nodes := [output (node mode existing) cursor],
        spans := (output (node mode existing) cursor).spans }
      (leaves (node mode existing) cursor) [other] other.spans True (existing = other) where
  ids := rfl
  next := rfl
  moved steady := congrArg (fun place : Span → Span => [place existing.span]) (steady cursor.line)
  made := List.forall_mem_singleton.mpr ⟨cursor.line, existing.span, rfl⟩
  line := rfl
  lines := rfl
  words := trivial
  pins := by
    intro ids otherIds rest otherRest sameIds sameSpans
    obtain ⟨id, sameIds⟩ := List.cons.inj sameIds
    obtain ⟨span, sameSpans⟩ := List.cons.inj sameSpans
    exact ⟨by cases existing; cases other; simp_all, sameIds, sameSpans⟩

/-- A span without a node is placed. -/
theorem span (mode : SpanMode) (cursor : Cursor) (existing other : Span) :
    Visits mode cursor { spans := [existing] } { spans := [output (span mode existing) cursor] }
      (leaves (span mode existing) cursor) [] [other] True (existing = other) where
  ids := rfl
  next := rfl
  moved steady := congrArg (fun place : Span → Span => [place existing]) (steady cursor.line)
  made := List.forall_mem_singleton.mpr ⟨cursor.line, existing, rfl⟩
  line := rfl
  lines := rfl
  words := trivial
  pins _ _ _ _ sameIds sameSpans :=
    ⟨(List.cons.inj sameSpans).1, sameIds, (List.cons.inj sameSpans).2⟩

end Visits

/-- The step numbers an item, and passes by all in which another one can differ from it. -/
abbrev VisitsItem {α : Type} (mode : SpanMode) (stripped : α → α) (nodes : α → List Node)
    (spans lineSpans : α → List Span) (step : α → Numbering α) (cursor : Cursor) (item other : α) :
    Prop :=
  Visits mode cursor ⟨nodes item, spans item, lineSpans item⟩
    ⟨nodes ((step item).output cursor), spans ((step item).output cursor),
      lineSpans ((step item).output cursor)⟩
    ((step item).leaves cursor) (nodes other) (spans other)
    (stripped ((step item).output cursor) = stripped item) (item = other)

/-- The step numbers a kind of syntax, and passes by all that is not in the words. -/
def Visited {α : Type} (mode : SpanMode) (stripped : α → α) (nodes : α → List Node)
    (spans lineSpans : α → List Span) (step : α → Numbering α) : Prop :=
  ∀ ⦃item other : α⦄ (cursor : Cursor), stripped item = stripped other →
    VisitsItem mode stripped nodes spans lineSpans step cursor item other

/-- The step keeps the words of an item and changes the rest as numbering does. -/
structure Numbers {α : Type} (mode : SpanMode) (stripped : α → α) (nodes : α → List Node)
    (spans lineSpans : α → List Span) (step : α → Numbering α) (item : α) (cursor : Cursor) : Prop
    extends Changes mode cursor ⟨nodes item, spans item, lineSpans item⟩
      ⟨nodes ((step item).output cursor), spans ((step item).output cursor),
        lineSpans ((step item).output cursor)⟩ ((step item).leaves cursor) where
  words : stripped ((step item).output cursor) = stripped item

namespace Visited

section Parts

variable {α : Type} {mode : SpanMode} {stripped : α → α} {nodes : α → List Node}
  {spans lineSpans : α → List Span} {step : α → Numbering α}

theorem numbers (visited : Visited mode stripped nodes spans lineSpans step) (item : α)
    (cursor : Cursor) : Numbers mode stripped nodes spans lineSpans step item cursor :=
  ⟨(visited cursor rfl).toChanges, (visited cursor rfl).words⟩

/-- Items in a row are numbered one after the other. -/
theorem list (each : Visited mode stripped nodes spans lineSpans step) :
    Visited mode (List.map stripped) (List.flatMap nodes) (List.flatMap spans)
      (List.flatMap lineSpans) (List.mapM step) := by
  intro items others cursor same
  induction items generalizing others cursor with
  | nil =>
    obtain rfl := List.map_eq_nil_iff.mp same.symm
    exact .nil mode cursor rfl rfl
  | cons item items ih =>
    obtain ⟨other, others, rfl, first, later⟩ := List.map_eq_cons_iff.mp same.symm
    have parts := (each cursor first.symm).append (ih _ later.symm)
    simp only [VisitsItem, List.mapM_cons, output_bind, output_pure, leaves_bind, leaves_pure,
      List.flatMap_cons]
    exact parts.imp (fun words => by simp [words]) fun equal => by rw [equal.1, equal.2]

/-- Items without lines of their own open none. -/
theorem inline (each : Visited mode stripped nodes spans (fun _ => []) step) :
    Visited mode (List.map stripped) (List.flatMap nodes) (List.flatMap spans) (fun _ => [])
      (List.mapM step) := by
  intro items others cursor same
  have none (items : List α) : items.flatMap (fun _ => ([] : List Span)) = [] := by simp
  have parts := each.list cursor same
  rwa [VisitsItem, none, none] at parts

variable {optionalNodes : Option α → List Node} {optionalStep : Option α → Numbering (Option α)}

/-- An item that may be absent. -/
theorem option (each : Visited mode stripped nodes spans (fun _ => []) step)
    (atNone : optionalNodes none = [] ∧ optionalStep none = pure none)
    (atSome : ∀ item, optionalNodes (some item) = nodes item ∧
      optionalStep (some item) = some <$> step item) :
    Visited mode (Option.map stripped) optionalNodes (·.toList.flatMap spans) (fun _ => [])
      optionalStep := by
  intro item other cursor same
  cases item with
  | none =>
    obtain rfl := Option.map_eq_none_iff.mp same.symm
    rw [VisitsItem, atNone.2, output_pure, atNone.1]
    exact .nil mode cursor rfl rfl
  | some item =>
    obtain ⟨other, rfl, words⟩ := Option.map_eq_some_iff.mp same.symm
    rw [VisitsItem, (atSome item).2]
    simpa [atSome] using each cursor words.symm

/-- An item that may be absent and opens a line when it is there. -/
theorem onLine {spanOf : α → Span} (each : Visited mode stripped nodes spans (fun _ => []) step)
    (placed : ∀ cursor item,
      spanOf ((step item).output cursor) = mode.place cursor.line (spanOf item))
    (atNone : optionalNodes none = [])
    (atSome : ∀ item, optionalNodes (some item) = nodes item) :
    Visited mode (Option.map stripped) optionalNodes (·.toList.flatMap spans)
      (·.toList.map spanOf) (Numbering.onLine step) := by
  intro item other cursor same
  cases item with
  | none =>
    obtain rfl := Option.map_eq_none_iff.mp same.symm
    rw [VisitsItem, Numbering.onLine, output_pure, atNone]
    exact .nil mode cursor rfl rfl
  | some item =>
    obtain ⟨other, rfl, words⟩ := Option.map_eq_some_iff.mp same.symm
    have parts := (each (leaves newLine cursor) words.symm).onLine (spanOf item)
    have onward : Numbering.onLine step (some item) = (do newLine; some <$> step item) := rfl
    rw [VisitsItem, onward]
    simpa [atSome, placed] using parts

end Parts

end Visited

variable {mode : SpanMode}

theorem visited_identifier :
    Visited mode Identifier.stripped (fun _ => []) Identifier.spans (fun _ => [])
      (identifier mode) := by
  intro name other cursor same
  refine (Visits.span mode cursor name.span other.span).imp (fun _ => rfl) fun equal => ?_
  cases name; cases other; simp_all [Identifier.stripped, Identifier.bare]

theorem visited_identifiers :
    Visited mode (List.map Identifier.stripped) (fun _ => []) (List.flatMap Identifier.spans)
      (fun _ => []) (List.mapM (identifier mode)) := by
  intro names others cursor same
  have none (names : List Identifier) : names.flatMap (fun _ => ([] : List Node)) = [] := by simp
  have parts : Visits mode cursor _ _ (leaves (names.mapM (identifier mode)) cursor) _ _ _ _ :=
    visited_identifier.inline cursor same
  rwa [none, none, none] at parts

theorem visited_optionalIdentifier :
    Visited mode (Option.map Identifier.stripped) (fun _ => []) (·.toList.flatMap Identifier.spans)
      (fun _ => []) (optionalIdentifier mode) :=
  visited_identifier.option ⟨rfl, rfl⟩ fun _ => ⟨rfl, rfl⟩

theorem visited_propertyType :
    Visited mode PropertyType.stripped (fun _ => []) PropertyType.spans (fun _ => [])
      (propertyType mode) := by
  intro type other cursor same
  cases type <;> cases other <;> try cases same
  case primitive.primitive => exact .nil mode cursor rfl rfl
  case enumeration.enumeration =>
    exact (visited_identifier cursor (PropertyType.enumeration.inj same)).wrap
      PropertyType.enumeration

theorem visited_modifierMark :
    Visited mode ModifierMark.stripped ModifierMark.nodes ModifierMark.spans (fun _ => [])
      (modifierMark mode) := by
  intro mark other cursor same
  refine (Visits.node mode cursor mark.toNode other.toNode).imp (fun _ => rfl) fun equal => ?_
  cases mark; cases other; simp_all [ModifierMark.stripped]

theorem visited_thisPath :
    Visited mode ThisPath.stripped ThisPath.nodes ThisPath.spans (fun _ => [])
      (thisPath mode) := by
  intro path other cursor same
  obtain ⟨-, hops, member⟩ := ThisPath.mk.inj same
  have parts := Visits.node mode cursor path.toNode other.toNode
    |>.append (visited_identifiers _ hops)
    |>.append (visited_identifier _ member)
  refine parts.imp (fun words => ?_) fun equal => ?_
  · simp [thisPath, ThisPath.stripped, words]
  · cases path; cases other; simp_all

theorem visited_typePath :
    Visited mode TypePath.stripped TypePath.nodes TypePath.spans (fun _ => [])
      (typePath mode) := by
  intro path other cursor same
  obtain ⟨-, classifier, hops, member⟩ := TypePath.mk.inj same
  have parts := Visits.node mode cursor path.toNode other.toNode
    |>.append (visited_identifier _ classifier)
    |>.append (visited_identifiers _ hops)
    |>.append (visited_identifier _ member)
  refine parts.imp (fun words => ?_) fun equal => ?_
  · simp [typePath, TypePath.stripped, words]
  · cases path; cases other; simp_all

theorem visited_literal :
    Visited mode LiteralNode.stripped LiteralNode.nodes LiteralNode.spans (fun _ => [])
      (literal mode) := by
  intro constant other cursor same
  refine (Visits.node mode cursor constant.toNode other.toNode).imp (fun _ => rfl) fun equal => ?_
  cases constant; cases other; simp_all [LiteralNode.stripped]

/-- One side of a comparison: a path, or a node with what it names. -/
theorem visited_value :
    Visited mode Value.stripped Value.nodes Value.spans (fun _ => []) (value mode) := by
  intro operand other cursor same
  cases operand <;> cases other <;> try cases same
  case thisMember.thisMember =>
    exact (visited_thisPath cursor (Value.thisMember.inj same)).wrap Value.thisMember
  case typeMember.typeMember =>
    exact (visited_typePath cursor (Value.typeMember.inj same)).wrap Value.typeMember
  case variable.variable node _ other _ =>
    have parts := (Visits.node mode cursor node other).append
      (visited_identifier _ (Value.variable.inj same).2)
    exact parts.imp (fun words => by simp [value, Value.stripped, words])
      fun equal => by rw [equal.1, equal.2]
  case literal.literal =>
    exact (visited_literal cursor (Value.literal.inj same)).wrap Value.literal
  case literalList.literalList node _ other _ =>
    have parts := (Visits.node mode cursor node other).append
      (visited_literal.inline _ (Value.literalList.inj same).2)
    exact parts.imp (fun words => by simp [value, Value.stripped, words])
      fun equal => by rw [equal.1, equal.2]
  case user.user node other =>
    exact (Visits.node mode cursor node other).imp (fun _ => rfl) (congrArg Value.user)

/-- Criteria are numbered from the root, and the left side before the right one. -/
theorem visited_criteria :
    Visited mode Criteria.stripped Criteria.nodes Criteria.spans (fun _ => [])
      (criteria mode) := by
  intro expression other cursor same
  induction expression generalizing other cursor <;> cases other <;> try cases same
  case all.all node other =>
    exact (Visits.node mode cursor node other).imp (fun _ => rfl) (congrArg Criteria.all)
  case and.and node _ _ ofLeft ofRight other _ _ =>
    obtain ⟨-, sameLeft, sameRight⟩ := Criteria.and.inj same
    have parts := Visits.node mode cursor node other
      |>.append (ofLeft _ sameLeft)
      |>.append (ofRight _ sameRight)
    exact parts.imp (fun words => by simp [criteria, Criteria.stripped, words])
      fun equal => by rw [equal.1.1, equal.1.2, equal.2]
  case or.or node _ _ ofLeft ofRight other _ _ =>
    obtain ⟨-, sameLeft, sameRight⟩ := Criteria.or.inj same
    have parts := Visits.node mode cursor node other
      |>.append (ofLeft _ sameLeft)
      |>.append (ofRight _ sameRight)
    exact parts.imp (fun words => by simp [criteria, Criteria.stripped, words])
      fun equal => by rw [equal.1.1, equal.1.2, equal.2]
  case operator.operator node _ mark _ other _ otherMark _ =>
    obtain ⟨-, sameSource, sameMark, sameTarget⟩ := Criteria.operator.inj same
    have parts := Visits.node mode cursor node other
      |>.append (visited_value _ sameSource)
      |>.append (Visits.span mode _ mark.span otherMark.span)
      |>.append (visited_value _ sameTarget)
    simp only [List.append_nil] at parts
    refine parts.imp (fun words => ?_) fun equal => ?_
    · simp [criteria, Criteria.stripped, words]
    · cases mark; cases otherMark; simp_all
  case edgePoint.edgePoint node _ other _ =>
    have parts := (Visits.node mode cursor node other).append
      (visited_thisPath _ (Criteria.edgePoint.inj same).2)
    exact parts.imp (fun words => by simp [criteria, Criteria.stripped, words])
      fun equal => by rw [equal.1, equal.2]

theorem visited_orderByMember :
    Visited mode OrderByMember.stripped OrderByMember.nodes OrderByMember.spans (fun _ => [])
      (orderByMember mode) := by
  intro member other cursor same
  obtain ⟨-, path, -⟩ := OrderByMember.mk.inj same
  have parts := (Visits.node mode cursor member.toNode other.toNode).append
    (visited_thisPath _ path)
  refine parts.imp (fun words => ?_) fun equal => ?_
  · simp [orderByMember, OrderByMember.stripped, words]
  · cases member; cases other; simp_all [OrderByMember.stripped]

theorem visited_orderBy :
    Visited mode OrderBy.stripped OrderBy.nodes OrderBy.spans (fun _ => []) (orderBy mode) := by
  intro ordering other cursor same
  obtain ⟨-, members⟩ := OrderBy.mk.inj same
  have parts := (Visits.node mode cursor ordering.toNode other.toNode).append
    (visited_orderByMember.inline _ members)
  refine parts.imp (fun words => ?_) fun equal => ?_
  · simp [orderBy, OrderBy.stripped, words]
  · cases ordering; cases other; simp_all

theorem visited_optionalOrderBy :
    Visited mode (Option.map OrderBy.stripped) OrderBy.optionalNodes
      (·.toList.flatMap OrderBy.spans) (fun _ => []) (optionalOrderBy mode) :=
  visited_orderBy.option ⟨rfl, rfl⟩ fun _ => ⟨rfl, rfl⟩

theorem visited_validation :
    Visited mode Validation.stripped Validation.nodes Validation.spans (fun _ => [])
      (validation mode) := by
  intro bound other cursor same
  refine (Visits.node mode cursor bound.toNode other.toNode).imp (fun _ => rfl) fun equal => ?_
  cases bound; cases other; simp_all [Validation.stripped]

theorem visited_property :
    Visited mode Property.stripped Property.nodes Property.spans (fun _ => [])
      (property mode) := by
  intro declaration other cursor same
  obtain ⟨-, name, type, -, optional, modifiers, validations⟩ := Property.mk.inj same
  have parts := Visits.node mode cursor declaration.toNode other.toNode
    |>.append (visited_identifier _ name)
    |>.append (visited_propertyType _ type)
    |>.append (Visits.span mode _ declaration.typeSpan other.typeSpan)
    |>.append (visited_modifierMark.inline _ modifiers)
    |>.append (visited_validation.inline _ validations)
  refine parts.imp (fun words => ?_) fun equal => ?_
  · simp [property, Property.stripped, words]
  · cases declaration; cases other; simp_all

theorem visited_endSignature :
    Visited mode EndSignature.stripped EndSignature.nodes EndSignature.spans (fun _ => [])
      (endSignature mode) := by
  intro signature other cursor same
  obtain ⟨-, name, target, multiplicity, modifiers⟩ := EndSignature.mk.inj same
  have parts := Visits.node mode cursor signature.toNode other.toNode
    |>.append (visited_identifier _ name)
    |>.append (visited_identifier _ target)
    |>.append (visited_modifierMark.inline _ modifiers)
  refine parts.imp (fun words => ?_) fun equal => ?_
  · simp [endSignature, EndSignature.stripped, words]
  · cases signature; cases other; simp_all

/-- A member opens a line for its node. -/
theorem visited_member :
    Visited mode Member.stripped Member.nodes Member.spans Member.lineSpans (member mode) := by
  intro declaration other cursor same
  cases declaration <;> cases other <;> try cases same
  case property.property declaration _ =>
    exact ((visited_property _ (Member.property.inj same)).onLine declaration.span).wrap
      Member.property
  case endSignature.endSignature signature _ =>
    exact ((visited_endSignature _ (Member.endSignature.inj same)).onLine signature.span).wrap
      Member.endSignature

theorem visited_enumerationLiteral :
    Visited mode EnumerationLiteral.stripped EnumerationLiteral.nodes EnumerationLiteral.spans
      EnumerationLiteral.lineSpans (enumerationLiteral mode) := by
  intro literal other cursor same
  obtain ⟨-, name, pretty⟩ := EnumerationLiteral.mk.inj same
  have parts := (Visits.node mode (leaves newLine cursor) literal.toNode other.toNode).append
    (visited_identifier _ name)
  refine (parts.onLine literal.span).imp (fun words => ?_) fun equal => ?_
  · simp [enumerationLiteral, EnumerationLiteral.stripped, words]
  · cases literal; cases other; simp_all

theorem visited_enumeration :
    Visited mode Enumeration.stripped Enumeration.nodes Enumeration.spans
      (·.literals.flatMap EnumerationLiteral.lineSpans) (enumeration mode) := by
  intro declaration other cursor same
  obtain ⟨-, name, literals⟩ := Enumeration.mk.inj same
  have parts := Visits.node mode cursor declaration.toNode other.toNode
    |>.append (visited_identifier _ name)
    |>.append (visited_enumerationLiteral.list _ literals)
  refine parts.imp (fun words => ?_) fun equal => ?_
  · simp [enumeration, Enumeration.stripped, words]
  · cases declaration; cases other; simp_all

theorem visited_interface :
    Visited mode Interface.stripped Interface.nodes Interface.spans
      (·.members.flatMap Member.lineSpans) (interface mode) := by
  intro declaration other cursor same
  obtain ⟨-, name, interfaces, modifiers, members⟩ := Interface.mk.inj same
  have parts := Visits.node mode cursor declaration.toNode other.toNode
    |>.append (visited_identifier _ name)
    |>.append (visited_identifiers _ interfaces)
    |>.append (visited_modifierMark.inline _ modifiers)
    |>.append (visited_member.list _ members)
  refine parts.imp (fun words => ?_) fun equal => ?_
  · simp [interface, Interface.stripped, words]
  · cases declaration; cases other; simp_all

theorem visited_abstractClause :
    Visited mode (Option.map fun clause : AbstractClause => { clause with span := .placeholder })
      (fun _ => []) (·.toList.flatMap AbstractClause.spans) (fun _ => [])
      (abstractClause mode) := by
  have each : Visited mode (fun clause : AbstractClause => { clause with span := .placeholder })
      (fun _ => []) AbstractClause.spans (fun _ => [])
      (fun clause => return { clause with span := ← span mode clause.span }) := by
    intro clause other cursor same
    refine (Visits.span mode cursor clause.span other.span).imp (fun _ => rfl) fun equal => ?_
    cases clause; cases other; simp_all
  exact each.option ⟨rfl, rfl⟩ fun _ => ⟨rfl, rfl⟩

theorem visited_klass :
    Visited mode Class.stripped Class.nodes Class.spans (·.members.flatMap Member.lineSpans)
      (klass mode) := by
  intro declaration other cursor same
  obtain ⟨-, name, isUser, clause, superclass, interfaces, modifiers, members⟩ :=
    Class.mk.inj same
  have parts := Visits.node mode cursor declaration.toNode other.toNode
    |>.append (visited_identifier _ name)
    |>.append (visited_abstractClause _ clause)
    |>.append (visited_optionalIdentifier _ superclass)
    |>.append (visited_identifiers _ interfaces)
    |>.append (visited_modifierMark.inline _ modifiers)
    |>.append (visited_member.list _ members)
  refine parts.imp (fun words => ?_) fun equal => ?_
  · simp [klass, Class.stripped, words]
  · cases declaration; cases other; simp_all

theorem visited_associationEnd :
    Visited mode AssociationEnd.stripped AssociationEnd.nodes AssociationEnd.spans
      AssociationEnd.lineSpans (associationEnd mode) := by
  intro declaration other cursor same
  obtain ⟨-, name, target, multiplicity, modifiers, ordering⟩ := AssociationEnd.mk.inj same
  have parts := Visits.node mode (leaves newLine cursor) declaration.toNode other.toNode
    |>.append (visited_identifier _ name)
    |>.append (visited_identifier _ target)
    |>.append (visited_modifierMark.inline _ modifiers)
    |>.append (visited_optionalOrderBy _ ordering)
  refine (parts.onLine declaration.span).imp (fun words => ?_) fun equal => ?_
  · simp [associationEnd, AssociationEnd.stripped, words]
  · cases declaration; cases other; simp_all

/-- The root of criteria is numbered first, on the line that is open. -/
theorem span_criteria (expression : Criteria) (cursor : Cursor) :
    (output (criteria mode expression) cursor).node.span =
      mode.place cursor.line expression.node.span := by
  cases expression <;> rfl

/-- The ends and the relationship of an association open lines, in this order. -/
theorem visited_association :
    Visited mode Association.stripped Association.nodes Association.spans
      (fun declaration => declaration.source.lineSpans ++ (declaration.target.lineSpans ++
        [declaration.relationship.node.span])) (association mode) := by
  intro declaration other cursor same
  obtain ⟨-, name, source, target, relationship⟩ := Association.mk.inj same
  have parts := Visits.node mode cursor declaration.toNode other.toNode
    |>.append (visited_identifier _ name)
    |>.append (visited_associationEnd _ source)
    |>.append (visited_associationEnd _ target)
    |>.append ((visited_criteria _ relationship).onLine declaration.relationship.node.span)
  rw [← span_criteria] at parts
  simp only [VisitsItem, Association.nodes, ← List.append_assoc]
  refine parts.imp (fun words => ?_) fun equal => ?_
  · simp [association, Association.stripped, words]
  · cases declaration; cases other; simp_all

mutual

/-- An element of a projection is numbered with the elements under it. -/
theorem visits_projectionElement (cursor : Cursor) : ∀ element other : ProjectionElement,
    element.stripped = other.stripped →
      VisitsItem mode ProjectionElement.stripped ProjectionElement.nodes ProjectionElement.spans
        ProjectionElement.lineSpans (projectionElement mode) cursor element other
  | .property node name header, other, same => by
    cases other with
    | property otherNode otherName otherHeader =>
      obtain ⟨-, names, headers⟩ := ProjectionElement.property.inj same
      have parts := (Visits.node mode (leaves newLine cursor) node otherNode).append
        (visited_identifier _ names)
      exact (parts.onLine node.span).imp
        (fun words => by simp [projectionElement, ProjectionElement.stripped, words])
        fun equal => by rw [equal.1, equal.2, headers]
    | _ => cases same
  | .reference node name children, other, same => by
    cases other with
    | reference otherNode otherName others =>
      obtain ⟨-, names, below⟩ := ProjectionElement.reference.inj same
      have parts := Visits.node mode (leaves newLine cursor) node otherNode
        |>.append (visited_identifier _ names)
        |>.append (visits_projectionElements _ children others below)
      exact (parts.onLine node.span).imp
        (fun words => by simp [projectionElement, ProjectionElement.stripped, words])
        fun equal => by rw [equal.1.1, equal.1.2, equal.2]
    | _ => cases same
  | .projection node name target, other, same => by
    cases other with
    | projection otherNode otherName otherTarget =>
      obtain ⟨-, names, targets⟩ := ProjectionElement.projection.inj same
      have parts := Visits.node mode (leaves newLine cursor) node otherNode
        |>.append (visited_identifier _ names)
        |>.append (visited_identifier _ targets)
      exact (parts.onLine node.span).imp
        (fun words => by simp [projectionElement, ProjectionElement.stripped, words])
        fun equal => by rw [equal.1.1, equal.1.2, equal.2]
    | _ => cases same

/-- The elements of a projection are numbered in a row. -/
theorem visits_projectionElements (cursor : Cursor) : ∀ elements others : List ProjectionElement,
    ProjectionElement.strippedAll elements = ProjectionElement.strippedAll others →
      VisitsItem mode ProjectionElement.strippedAll ProjectionElement.allNodes
        ProjectionElement.allSpans ProjectionElement.allLineSpans (projectionElements mode) cursor
        elements others
  | [], others, same => by
    cases others with
    | nil => exact .nil mode cursor rfl rfl
    | cons _ _ => cases same
  | element :: rest, others, same => by
    cases others with
    | nil => cases same
    | cons other others =>
      obtain ⟨first, later⟩ := List.cons.inj same
      have parts := (visits_projectionElement cursor element other first).append
        (visits_projectionElements _ rest others later)
      exact parts.imp
        (fun words => by simp [projectionElements, ProjectionElement.strippedAll, words])
        fun equal => by rw [equal.1, equal.2]

end

theorem visited_projection :
    Visited mode Projection.stripped Projection.nodes Projection.spans
      (ProjectionElement.allLineSpans ·.children) (projection mode) := by
  intro declaration other cursor same
  obtain ⟨-, name, classifier, children⟩ := Projection.mk.inj same
  have parts := Visits.node mode cursor declaration.toNode other.toNode
    |>.append (visited_identifier _ name)
    |>.append (visited_identifier _ classifier)
    |>.append (visits_projectionElements _ _ _ children)
  refine parts.imp (fun words => ?_) fun equal => ?_
  · simp [projection, Projection.stripped, words]
  · cases declaration; cases other; simp_all

theorem visited_parameter :
    Visited mode Parameter.stripped Parameter.nodes Parameter.spans (fun _ => [])
      (parameter mode) := by
  intro declaration other cursor same
  obtain ⟨-, name, type, multiplicity⟩ := Parameter.mk.inj same
  have parts := Visits.node mode cursor declaration.toNode other.toNode
    |>.append (visited_identifier _ name)
    |>.append (visited_propertyType _ type)
  refine parts.imp (fun words => ?_) fun equal => ?_
  · simp [parameter, Parameter.stripped, words]
  · cases declaration; cases other; simp_all

theorem visited_urlSegment :
    Visited mode UrlSegment.stripped UrlSegment.nodes UrlSegment.spans (fun _ => [])
      (urlSegment mode) := by
  intro segment other cursor same
  cases segment <;> cases other <;> try cases same
  case constant.constant =>
    exact (visited_identifier cursor (UrlSegment.constant.inj same)).wrap UrlSegment.constant
  case parameter.parameter =>
    exact (visited_parameter cursor (UrlSegment.parameter.inj same)).wrap UrlSegment.parameter

/-- A clause opens a line for its node. -/
theorem visited_clause :
    Visited mode Clause.stripped Clause.nodes Clause.spans Clause.lineSpans (clause mode) := by
  intro declaration other cursor same
  obtain ⟨-, kind, -, condition⟩ := Clause.mk.inj same
  have parts := Visits.node mode (leaves newLine cursor) declaration.toNode other.toNode
    |>.append (Visits.span mode _ declaration.keywordSpan other.keywordSpan)
    |>.append (visited_criteria _ condition)
  refine (parts.onLine declaration.span).imp (fun words => ?_) fun equal => ?_
  · simp [clause, Clause.stripped, words]
  · cases declaration; cases other; simp_all

/-- The projection and the ordering of a service open lines if they are there. -/
theorem visited_service :
    Visited mode Service.stripped Service.nodes Service.spans Service.lineSpans
      (service mode) := by
  intro declaration other cursor same
  obtain ⟨-, verb, multiplicity, clauses, projection, ordering⟩ := Service.mk.inj same
  have ofProjection : Visited mode (Option.map Identifier.stripped) (fun _ => [])
      (·.toList.flatMap Identifier.spans) (·.toList.map (·.span)) (onLine (identifier mode)) :=
    visited_identifier.onLine (fun _ _ => rfl) rfl fun _ => rfl
  have ofOrdering : Visited mode (Option.map OrderBy.stripped) OrderBy.optionalNodes
      (·.toList.flatMap OrderBy.spans) (·.toList.map (·.span)) (onLine (orderBy mode)) :=
    visited_orderBy.onLine (fun _ _ => rfl) rfl fun _ => rfl
  have parts := Visits.node mode (leaves newLine cursor) declaration.toNode other.toNode
    |>.append (visited_clause.list _ clauses)
    |>.append (ofProjection _ projection)
    |>.append (ofOrdering _ ordering)
  simp only [List.append_nil] at parts
  simp only [VisitsItem, Service.lineSpans, ← List.append_assoc]
  refine (parts.onLine declaration.span).imp (fun words => ?_) fun equal => ?_
  · simp [service, Service.stripped, words]
  · cases declaration; cases other; simp_all

/-- A url opens a line, and its services open theirs. -/
theorem visited_url :
    Visited mode Url.stripped Url.nodes Url.spans Url.lineSpans (url mode) := by
  intro declaration other cursor same
  obtain ⟨-, path, query, services⟩ := Url.mk.inj same
  have parts := Visits.node mode (leaves newLine cursor) declaration.toNode other.toNode
    |>.append (visited_urlSegment.inline _ path)
    |>.append (visited_parameter.inline _ query)
    |>.append (visited_service.list _ services)
  simp only [VisitsItem, Url.nodes, ← List.append_assoc]
  refine (parts.onLine declaration.span).imp (fun words => ?_) fun equal => ?_
  · simp [url, Url.stripped, words]
  · cases declaration; cases other; simp_all

theorem visited_serviceGroup :
    Visited mode ServiceGroup.stripped ServiceGroup.nodes ServiceGroup.spans
      (·.urls.flatMap Url.lineSpans) (serviceGroup mode) := by
  intro declaration other cursor same
  obtain ⟨-, name, target, urls⟩ := ServiceGroup.mk.inj same
  have parts := Visits.node mode cursor declaration.toNode other.toNode
    |>.append (visited_identifier _ name)
    |>.append (visited_identifier _ target)
    |>.append (visited_url.list _ urls)
  refine parts.imp (fun words => ?_) fun equal => ?_
  · simp [serviceGroup, ServiceGroup.stripped, words]
  · cases declaration; cases other; simp_all

/-- The node of a declaration is numbered before what it holds, on the line that was just
opened. -/
theorem visited_declaration :
    Visited mode Declaration.stripped Declaration.nodes Declaration.spans Declaration.lineSpans
      (declaration mode) := by
  intro element other cursor same
  cases element <;> cases other <;> try cases same
  case enumeration.enumeration declaration _ =>
    exact ((visited_enumeration _ (Declaration.enumeration.inj same)).onLine
      declaration.span).wrap Declaration.enumeration
  case interface.interface declaration _ =>
    exact ((visited_interface _ (Declaration.interface.inj same)).onLine declaration.span).wrap
      Declaration.interface
  case klass.klass declaration _ =>
    exact ((visited_klass _ (Declaration.klass.inj same)).onLine declaration.span).wrap
      Declaration.klass
  case association.association declaration _ =>
    exact ((visited_association _ (Declaration.association.inj same)).onLine
      declaration.span).wrap Declaration.association
  case projection.projection declaration _ =>
    exact ((visited_projection _ (Declaration.projection.inj same)).onLine
      declaration.span).wrap Declaration.projection
  case serviceGroup.serviceGroup declaration _ =>
    exact ((visited_serviceGroup _ (Declaration.serviceGroup.inj same)).onLine
      declaration.span).wrap Declaration.serviceGroup

/-- A tree is its package, on the first line, and its declarations. -/
theorem visited_tree :
    Visited mode SourceTree.stripped SourceTree.nodes SourceTree.spans SourceTree.lineSpans
      (tree mode) := by
  intro source other cursor same
  obtain ⟨package, elements⟩ := SourceTree.mk.inj same
  obtain ⟨-, name⟩ := Package.mk.inj package
  have parts := Visits.node mode (leaves newLine cursor) source.package.toNode
      other.package.toNode
    |>.append (visited_declaration.list _ elements)
  refine (parts.onLine source.package.span).imp (fun words => ?_) fun equal => ?_
  · simp [tree, SourceTree.stripped, words]
  · rcases source with ⟨⟨_, _⟩, _⟩; rcases other with ⟨⟨_, _⟩, _⟩; simp_all

section Items

variable (mode : SpanMode) (cursor : Cursor)

/-- Members in a row get consecutive ids. -/
theorem numbers_members (declarations : List Member) :
    Numbers mode (List.map Member.stripped) (List.flatMap Member.nodes) (List.flatMap Member.spans)
      (List.flatMap Member.lineSpans) (members mode) declarations cursor :=
  visited_member.list.numbers declarations cursor

theorem numbers_clauses (declarations : List Clause) :
    Numbers mode (List.map Clause.stripped) (List.flatMap Clause.nodes) (List.flatMap Clause.spans)
      (List.flatMap Clause.lineSpans) (clauses mode) declarations cursor :=
  visited_clause.list.numbers declarations cursor

theorem numbers_tree (source : SourceTree) :
    Numbers mode SourceTree.stripped SourceTree.nodes SourceTree.spans SourceTree.lineSpans
      (tree mode) source cursor :=
  visited_tree.numbers source cursor

end Items

end Numbering

namespace SourceTree

/-- Numbering changes ids and spans only. -/
@[simp] theorem stripped_numbered (mode : SpanMode) (tree : SourceTree) :
    (tree.numbered mode).stripped = tree.stripped :=
  (Numbering.numbers_tree mode {} tree).words

theorem ids_numbered (mode : SpanMode) (tree : SourceTree) :
    (tree.numbered mode).nodes.map Node.id = Numbering.idsFrom 1 tree.nodes :=
  (Numbering.numbers_tree mode {} tree).ids

/-- Where a mode does not look at the lines, every span is moved in the same way. -/
theorem spans_numbered {mode : SpanMode} (steady : mode.Steady) (tree : SourceTree) :
    (tree.numbered mode).spans = tree.spans.map (mode.place 0) :=
  (Numbering.numbers_tree mode {} tree).moved steady

/-- A tree that is moved to a file lies in it. -/
theorem fileId_of_mem_spans {tree : SourceTree} {fileId : UInt16} {span : Span}
    (member : span ∈ (tree.numbered (.retarget fileId)).spans) : span.fileId = fileId := by
  rw [spans_numbered fun _ => rfl] at member
  obtain ⟨original, -, rfl⟩ := List.mem_map.mp member
  rfl

@[simp] theorem spans_numbered_keep (tree : SourceTree) :
    (tree.numbered .keep).spans = tree.spans :=
  (spans_numbered (fun _ => rfl) tree).trans tree.spans.map_id

/-- A tree that is not too large is numbered with distinct ids. -/
theorem nodup_ids_numbered (mode : SpanMode) (tree : SourceTree)
    (small : tree.nodes.length ≤ UInt32.size) :
    ((tree.numbered mode).nodes.map Node.id).Nodup := by
  rw [ids_numbered]
  exact Numbering.nodup_idsFrom 1 tree.nodes small

end SourceTree
end DomainLang.Syntax
