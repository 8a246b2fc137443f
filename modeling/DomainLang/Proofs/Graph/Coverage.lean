import DomainLang.Graph.Traversal
import DomainLang.Proofs.Collection
import Mathlib.Data.List.Chain
import Mathlib.Data.List.Perm.Subperm
import Mathlib.Logic.Relation

/-!
# What traversals cover

Traversals visit only what can be reached, and with a sufficient bound they miss nothing: what
they visit is closed under successors. A walk along single successors is a search through a queue.
There the nodes seen before count as visited, so the invariant says that everything a seen node
leads to is seen or still to come. A search that lists parents first finishes every node after
the parents that do not lead back to it.
-/

namespace DomainLang.Graph

open Relation (ReflTransGen TransGen)

variable {α : Type} {finish node : α} {nodes seen : List α} {bound : Nat}

/-- What is closed under steps contains whatever its members lead to. -/
theorem mem_of_reaches {steps : α → α → Prop} {visited : List α}
    (closed : ∀ node ∈ visited, ∀ successor, steps node successor → successor ∈ visited)
    {start : α} (reaches : ReflTransGen steps start finish) (visits : start ∈ visited) :
    finish ∈ visited := by
  induction reaches with
  | refl => exact visits
  | tail _ step ih => exact closed _ ih _ step

section Seen

variable [DecidableEq α]

/-- The nodes of a graph that were not seen. -/
def unseen (nodes seen : List α) : List α :=
  nodes.filter (· ∉ seen)

/-- Seeing one more node leaves one less. -/
theorem unseen_perm_cons (distinct : nodes.Nodup) (isNode : node ∈ nodes) (fresh : node ∉ seen) :
    (unseen nodes seen).Perm (node :: unseen nodes (node :: seen)) := by
  refine (List.perm_ext_iff_of_nodup (distinct.filter _)
    (List.nodup_cons.mpr ⟨by simp, distinct.filter _⟩)).mpr ?_
  intro other
  by_cases same : other = node
  · simp [same, isNode, fresh]
  · simp [same]

/-- Seeing something else leaves all. -/
theorem unseen_cons_of_not_mem (seen : List α) (outside : node ∉ nodes) :
    unseen nodes (node :: seen) = unseen nodes seen := by
  apply List.filter_congr
  intro other isNode
  have apart : other ≠ node := fun same => outside (same ▸ isNode)
  simp [apart]

theorem length_unseen_mono {more : List α} (subset : seen ⊆ more) :
    (unseen nodes more).length ≤ (unseen nodes seen).length := by
  apply List.Sublist.length_le
  apply List.monotone_filter_right
  intro node
  simpa using fun absent present => absent (subset present)

end Seen

section BreadthFirst

variable [DecidableEq α] {neighbours : α → List α}

/-- What is visited breadth first is reached from the queue. -/
theorem exists_reaches_of_mem_breadthFirst {queue : List α}
    (member : node ∈ breadthFirst neighbours bound seen queue) :
    ∃ start ∈ queue, ReflTransGen (fun first second => second ∈ neighbours first) start node := by
  induction bound generalizing seen queue with
  | zero => simp [breadthFirst] at member
  | succ bound ih =>
    cases queue with
    | nil => simp [breadthFirst] at member
    | cons first rest =>
      rw [breadthFirst] at member
      split at member
      · obtain ⟨start, queued, reaches⟩ := ih member
        exact ⟨start, List.mem_cons_of_mem _ queued, reaches⟩
      · rcases List.mem_cons.mp member with rfl | later
        · exact ⟨node, List.mem_cons_self, .refl⟩
        · obtain ⟨start, queued, reaches⟩ := ih later
          rcases List.mem_append.mp queued with waiting | added
          · exact ⟨start, List.mem_cons_of_mem _ waiting, reaches⟩
          · exact ⟨first, List.mem_cons_self, .head added reaches⟩

theorem not_mem_seen_of_mem_breadthFirst {queue : List α}
    (member : node ∈ breadthFirst neighbours bound seen queue) : node ∉ seen := by
  induction bound generalizing seen queue with
  | zero => cases member
  | succ bound ih =>
    cases queue with
    | nil => cases member
    | cons first rest =>
      rw [breadthFirst] at member
      split at member
      · exact ih member
      · next fresh =>
        rcases List.mem_cons.mp member with rfl | later
        · exact fresh
        · exact fun known => ih later (List.mem_cons_of_mem _ known)

theorem nodup_breadthFirst (neighbours : α → List α) (bound : Nat) (seen queue : List α) :
    (breadthFirst neighbours bound seen queue).Nodup := by
  induction bound generalizing seen queue with
  | zero => exact .nil
  | succ bound ih =>
    cases queue with
    | nil => exact .nil
    | cons node rest =>
      rw [breadthFirst]
      split
      · exact ih _ _
      · refine List.nodup_cons.mpr ⟨fun again => ?_, ih _ _⟩
        exact not_mem_seen_of_mem_breadthFirst again List.mem_cons_self

variable (distinct : nodes.Nodup) (outside : ∀ node, node ∉ nodes → neighbours node = [])
include distinct outside

/-- Seeing one more node takes its edges from those that are left. -/
theorem length_edges_cons (fresh : node ∉ seen) :
    (neighbours node).length + ((unseen nodes (node :: seen)).flatMap neighbours).length =
      ((unseen nodes seen).flatMap neighbours).length := by
  by_cases isNode : node ∈ nodes
  · have fewer := ((unseen_perm_cons distinct isNode fresh).flatMap_right neighbours).length_eq
    rw [fewer, List.flatMap_cons, List.length_append]
  · rw [outside node isNode, unseen_cons_of_not_mem seen isNode, List.length_nil, Nat.zero_add]

/-- More steps than there are edges to follow change nothing. -/
theorem breadthFirst_of_le {more : Nat} (larger : bound ≤ more) (seen queue : List α)
    (room : queue.length + ((unseen nodes seen).flatMap neighbours).length ≤ bound) :
    breadthFirst neighbours more seen queue = breadthFirst neighbours bound seen queue := by
  induction bound generalizing more seen queue with
  | zero =>
    obtain rfl : queue = [] := List.length_eq_zero_iff.mp (by omega)
    cases more <;> rfl
  | succ bound ih =>
    obtain ⟨more, rfl⟩ : ∃ fewer, more = fewer + 1 := ⟨more - 1, by omega⟩
    cases queue with
    | nil => rfl
    | cons node rest =>
      rw [List.length_cons] at room
      rw [breadthFirst, breadthFirst]
      split
      · exact ih (by omega) _ _ (by omega)
      · next fresh =>
        have fewer := length_edges_cons distinct outside fresh
        rw [ih (by omega) _ _ (by rw [List.length_append]; omega)]

/-- A search through a queue ends only when everything the queue leads to is seen. -/
theorem breadthFirst_closed (bound : Nat) (seen queue : List α)
    (room : queue.length + ((unseen nodes seen).flatMap neighbours).length ≤ bound)
    (seenClosed : ∀ node ∈ seen, ∀ successor ∈ neighbours node,
      successor ∈ seen ∨ successor ∈ queue) :
    queue ⊆ breadthFirst neighbours bound seen queue ++ seen ∧
      ∀ node ∈ breadthFirst neighbours bound seen queue ++ seen, ∀ successor ∈ neighbours node,
        successor ∈ breadthFirst neighbours bound seen queue ++ seen := by
  induction bound generalizing seen queue with
  | zero =>
    obtain rfl : queue = [] := List.length_eq_zero_iff.mp (by omega)
    simpa [breadthFirst] using seenClosed
  | succ bound ih =>
    cases queue with
    | nil => simpa [breadthFirst] using seenClosed
    | cons node rest =>
      rw [List.length_cons] at room
      rw [breadthFirst]
      split
      · next known =>
        obtain ⟨queued, closed⟩ := ih seen rest (by omega) (by
          intro other member successor step
          rcases seenClosed other member successor step with old | later
          · exact .inl old
          · rcases List.mem_cons.mp later with rfl | behind
            · exact .inl known
            · exact .inr behind)
        exact ⟨List.cons_subset.mpr ⟨List.mem_append_right _ known, queued⟩, closed⟩
      · next fresh =>
        have fewer := length_edges_cons distinct outside fresh
        obtain ⟨queued, closed⟩ := ih (node :: seen) (rest ++ neighbours node)
          (by rw [List.length_append]; omega) (by
            intro other member successor step
            rcases List.mem_cons.mp member with rfl | earlier
            · exact .inr (List.mem_append_right _ step)
            · rcases seenClosed other earlier successor step with old | later
              · exact .inl (List.mem_cons_of_mem _ old)
              · rcases List.mem_cons.mp later with rfl | behind
                · exact .inl List.mem_cons_self
                · exact .inr (List.mem_append_left _ behind))
        generalize breadthFirst neighbours bound (node :: seen) (rest ++ neighbours node) = met
          at queued closed ⊢
        have shuffled (item : α) : item ∈ met ++ node :: seen ↔ item ∈ node :: met ++ seen :=
          List.perm_middle.mem_iff
        simp only [shuffled] at closed
        refine ⟨List.cons_subset.mpr ⟨List.mem_cons_self, fun item later => ?_⟩, closed⟩
        exact (shuffled item).mp (queued (List.mem_append_left _ later))

/-- A search through a queue meets exactly what the queue leads to. -/
theorem mem_breadthFirst_iff {queue : List α}
    (room : queue.length + (nodes.flatMap neighbours).length ≤ bound) :
    finish ∈ breadthFirst neighbours bound [] queue ↔ ∃ start ∈ queue,
      ReflTransGen (fun node successor => successor ∈ neighbours node) start finish := by
  constructor
  · exact exists_reaches_of_mem_breadthFirst
  · rintro ⟨start, queued, reaches⟩
    obtain ⟨here, closed⟩ := breadthFirst_closed distinct outside bound [] queue
      (by simpa [unseen] using room) (by simp)
    rw [List.append_nil] at here closed
    exact mem_of_reaches closed reaches (here queued)

/-- A search from the neighbours of a node meets exactly the other nodes that it leads to. -/
theorem mem_breadthFirst_neighbours_iff {start : α}
    (room : (neighbours start).length + (nodes.flatMap neighbours).length ≤ bound) :
    finish ∈ breadthFirst neighbours bound [start] (neighbours start) ↔
      finish ≠ start ∧
        ReflTransGen (fun node successor => successor ∈ neighbours node) start finish := by
  constructor
  · intro member
    obtain ⟨first, step, reaches⟩ := exists_reaches_of_mem_breadthFirst member
    exact ⟨by simpa using not_mem_seen_of_mem_breadthFirst member, .head step reaches⟩
  · rintro ⟨apart, reaches⟩
    have all : unseen nodes [] = nodes := by simp [unseen]
    have fewer := length_edges_cons distinct outside (List.not_mem_nil (a := start))
    rw [all] at fewer
    obtain ⟨-, closed⟩ := breadthFirst_closed distinct outside bound [start] (neighbours start)
      (by omega) (by simpa using fun _ step => .inr step)
    have met := mem_of_reaches closed reaches (List.mem_append_right _ List.mem_cons_self)
    simpa [apart] using met

end BreadthFirst

section Follow

variable [DecidableEq α] {next : α → Option α}

/-- A walk along successors is a search through a queue of at most one node. -/
theorem follow_eq_breadthFirst (next : α → Option α) (bound : Nat) (seen : List α)
    (current : Option α) :
    follow next bound seen current =
      breadthFirst (fun node => (next node).toList) bound seen current.toList := by
  induction bound generalizing seen current with
  | zero => rfl
  | succ bound ih =>
    cases current with
    | none => rfl
    | some node =>
      rw [follow, Option.toList_some, breadthFirst, ih, List.nil_append]
      split
      · cases bound <;> rfl
      · rfl

theorem nodup_follow (next : α → Option α) (bound : Nat) (seen : List α) (current : Option α) :
    (follow next bound seen current).Nodup := by
  rw [follow_eq_breadthFirst]
  exact nodup_breadthFirst ..

/-- Each node that is met is the successor of the one before. -/
theorem isChain_follow {first : α} (bound : Nat) (seen : List α) {current : Option α}
    (step : next first = current) :
    (first :: follow next bound seen current).IsChain fun node successor =>
      next node = some successor := by
  induction bound generalizing first seen current with
  | zero => exact .singleton _
  | succ bound ih =>
    cases current with
    | none => exact .singleton _
    | some node =>
      rw [follow]
      split
      · exact .singleton _
      · exact .cons_cons step (ih _ rfl)

omit [DecidableEq α] in
/-- A walk has a step for its start and one for each edge. -/
theorem length_walk_le (next : α → Option α) (nodes : List α) (current : Option α) :
    current.toList.length + (nodes.flatMap fun node => (next node).toList).length ≤
      nodes.length + 1 := by
  have start := current.length_toList_le
  have edges : (nodes.flatMap fun node => (next node).toList).length ≤ nodes.length * 1 :=
    length_flatMap_le fun node _ => (next node).length_toList_le
  omega

variable (distinct : nodes.Nodup) (outside : ∀ node, node ∉ nodes → next node = none)
include distinct outside

/-- More steps than there are nodes to see change nothing. -/
theorem follow_of_le {more : Nat} (larger : bound ≤ more) (seen : List α) (current : Option α)
    (room : (unseen nodes seen).length < bound) :
    follow next more seen current = follow next bound seen current := by
  rw [follow_eq_breadthFirst, follow_eq_breadthFirst]
  exact breadthFirst_of_le distinct (by simpa using outside) larger seen _
    (Nat.le_trans (length_walk_le ..) room)

/-- Following successors meets exactly what the start leads to. -/
theorem mem_follow_iff (room : nodes.length < bound) {start : α} :
    finish ∈ follow next bound [] (some start) ↔
      ReflTransGen (fun node successor => next node = some successor) start finish := by
  rw [follow_eq_breadthFirst, mem_breadthFirst_iff distinct (by simpa using outside)
    (Nat.le_trans (length_walk_le ..) room)]
  simp

/-- Following the successors of a node meets exactly the other nodes that it leads to. -/
theorem mem_follow_next_iff (room : nodes.length < bound) {start : α} :
    finish ∈ follow next bound [start] (next start) ↔
      finish ≠ start ∧
        ReflTransGen (fun node successor => next node = some successor) start finish := by
  rw [follow_eq_breadthFirst, mem_breadthFirst_neighbours_iff distinct (by simpa using outside)
    (Nat.le_trans (length_walk_le ..) room)]
  simp

/-- Together with the start these are all nodes that it leads to. -/
theorem eq_or_mem_follow_next_iff (room : nodes.length < bound) {start : α} :
    start = finish ∨ finish ∈ follow next bound [start] (next start) ↔
      ReflTransGen (fun node successor => next node = some successor) start finish := by
  rw [mem_follow_next_iff distinct outside room]
  constructor
  · rintro (rfl | ⟨-, reaches⟩)
    · exact .refl
    · exact reaches
  · intro reaches
    by_cases same : start = finish
    · exact .inl same
    · exact .inr ⟨Ne.symm same, reaches⟩

/-- Without cycles following successors ends where there is none. -/
theorem next_getLast_follow (room : nodes.length < bound)
    (acyclic : ∀ node, ¬ TransGen (fun node successor => next node = some successor) node node)
    (start : α) :
    next ((start :: follow next bound [start] (next start)).getLast (List.cons_ne_nil _ _)) =
      none := by
  have chain : (start :: follow next bound [start] (next start)).IsChain fun node successor =>
      next node = some successor := isChain_follow bound [start] rfl
  generalize isLast : (start :: follow next bound [start] (next start)).getLast
    (List.cons_ne_nil _ _) = last
  have leads := chain.backwards_induction
    (ReflTransGen (fun node successor => next node = some successor) · last) _
    (fun _ _ step onward => .head step onward) fun _ => isLast ▸ .refl
  by_contra onward
  obtain ⟨after, onward⟩ := Option.ne_none_iff_exists'.mp onward
  -- the chain has everything that its start leads to
  have member : after ∈ start :: follow next bound [start] (next start) := by
    rw [List.mem_cons, eq_comm, eq_or_mem_follow_next_iff distinct outside room]
    exact (leads start List.mem_cons_self).tail onward
  exact acyclic last (.head' onward (leads after member))

end Follow

section PostOrder

/-- A node is another one or leads to it. -/
def Leads (parents : α → List α) : α → α → Prop :=
  ReflTransGen fun node parent => parent ∈ parents node

/-- Every node comes after its parents, except for parents that lead back to it. -/
def ParentsFirst (parents : α → List α) (order : List α) : Prop :=
  ∀ earlier node later, order = earlier ++ node :: later →
    ∀ parent ∈ parents node, parent ∈ earlier ∨ Leads parents parent node

/-- One more node, of which all parents are there already. -/
theorem ParentsFirst.concat {parents : α → List α} {order : List α}
    (sorted : ParentsFirst parents order) {last : α}
    (provided : ∀ parent ∈ parents last, parent ∈ order ∨ Leads parents parent last) :
    ParentsFirst parents (order ++ [last]) := by
  intro earlier node later split parent isParent
  rcases List.eq_nil_or_concat later with rfl | ⟨front, final, rfl⟩
  · obtain ⟨rfl, same⟩ := List.append_inj' split rfl
    obtain rfl := List.singleton_inj.mp same
    exact provided parent isParent
  · rw [List.concat_eq_append, ← List.cons_append, ← List.append_assoc] at split
    exact sorted earlier node front (List.append_inj' split rfl).1 parent isParent

/-- How a search goes on: it forgets nothing, and what it enters on the way it finishes. -/
structure Search.Continues (start finish : Search α) : Prop where
  entered : start.entered ⊆ finish.entered
  finished : start.finished ⊆ finish.finished
  completed : ∀ node ∈ finish.entered, node ∈ start.entered ∨ node ∈ finish.finished
  fresh : ∀ node ∈ finish.finished, node ∈ start.finished ∨ node ∉ start.entered

/-- What is finished was entered, is finished once and after its parents. -/
structure Search.Ordered (parents : α → List α) (search : Search α) : Prop where
  entered : search.finished ⊆ search.entered
  distinct : search.finished.Nodup
  parentsFirst : ParentsFirst parents search.finished

/-- What was entered is finished or leads to a node, as it does while its parents are
searched. -/
def Search.Above (parents : α → List α) (search : Search α) (node : α) : Prop :=
  ∀ other ∈ search.entered, other ∈ search.finished ∨ Leads parents other node

namespace Search

variable {parents : α → List α} {start middle finish : Search α}

theorem Continues.refl (search : Search α) : search.Continues search where
  entered := List.Subset.refl _
  finished := List.Subset.refl _
  completed _ member := .inl member
  fresh _ member := .inl member

theorem Continues.trans (first : start.Continues middle) (second : middle.Continues finish) :
    start.Continues finish where
  entered := List.Subset.trans first.entered second.entered
  finished := List.Subset.trans first.finished second.finished
  completed node member := by
    rcases second.completed node member with before | done
    · exact (first.completed node before).imp_right (second.finished ·)
    · exact .inr done
  fresh node member := by
    rcases second.fresh node member with before | new
    · exact first.fresh node before
    · exact .inr fun old => new (first.entered old)

/-- A search that goes on stays below the same nodes. -/
theorem Above.of_continues (above : start.Above parents node) (continues : start.Continues finish) :
    finish.Above parents node := by
  intro other member
  rcases continues.completed other member with before | done
  · exact (above other before).imp_left (continues.finished ·)
  · exact .inl done

/-- What a visit to a node does. -/
structure Visits (parents : α → List α) (node : α) (start finish : Search α) : Prop where
  continues : start.Continues finish
  ordered : finish.Ordered parents
  enters : node ∈ finish.entered
  leads : ∀ other ∈ finish.entered, other ∈ start.entered ∨ Leads parents node other

/-- Visits to several nodes, one after the other. -/
theorem foldl_visits (visit : Search α → α → Search α) (nodes : List α)
    (ordered : start.Ordered parents)
    (each : ∀ search node, node ∈ nodes → start.Continues search → search.Ordered parents →
      Visits parents node search (visit search node)) :
    start.Continues (nodes.foldl visit start) ∧ (nodes.foldl visit start).Ordered parents ∧
      nodes ⊆ (nodes.foldl visit start).entered ∧
      ∀ other ∈ (nodes.foldl visit start).entered,
        other ∈ start.entered ∨ ∃ node ∈ nodes, Leads parents node other := by
  induction nodes generalizing start with
  | nil => exact ⟨.refl start, ordered, List.nil_subset _, fun _ member => .inl member⟩
  | cons node rest ih =>
    have visits := each start node List.mem_cons_self (.refl start) ordered
    obtain ⟨continues, sorted, covered, reached⟩ := ih visits.ordered
      fun search other member onward =>
        each search other (List.mem_cons_of_mem _ member) (visits.continues.trans onward)
    refine ⟨visits.continues.trans continues, sorted,
      List.cons_subset.mpr ⟨continues.entered visits.enters, covered⟩, fun other member => ?_⟩
    rcases reached other member with before | ⟨source, later, leads⟩
    · exact (visits.leads other before).imp_right fun leads => ⟨node, List.mem_cons_self, leads⟩
    · exact .inr ⟨source, List.mem_cons_of_mem _ later, leads⟩

/-- A node is finished once its parents were visited. -/
theorem visits_finish (fresh : node ∉ start.entered) (entered : start.finished ⊆ start.entered)
    (above : Above parents { start with entered := node :: start.entered } node)
    (continues : Continues { start with entered := node :: start.entered } finish)
    (ordered : finish.Ordered parents) (covered : parents node ⊆ finish.entered)
    (reached : ∀ other ∈ finish.entered, other ∈ node :: start.entered ∨
      ∃ parent ∈ parents node, Leads parents parent other) :
    Visits parents node start { finish with finished := finish.finished ++ [node] } := by
  have isEntered : node ∈ finish.entered := continues.entered List.mem_cons_self
  have unfinished : node ∉ finish.finished := by
    intro done
    rcases continues.fresh node done with before | new
    · exact fresh (entered before)
    · exact new List.mem_cons_self
  refine ⟨⟨?_, ?_, ?_, ?_⟩, ⟨?_, ?_, ?_⟩, isEntered, ?_⟩
  · exact List.Subset.trans (List.subset_cons_self ..) continues.entered
  · exact List.Subset.trans continues.finished (List.subset_append_left ..)
  · intro other member
    rcases continues.completed other member with before | done
    · rcases List.mem_cons.mp before with rfl | earlier
      · exact .inr (List.mem_append_right _ List.mem_cons_self)
      · exact .inl earlier
    · exact .inr (List.mem_append_left _ done)
  · intro other member
    rcases List.mem_append.mp member with done | last
    · exact (continues.fresh other done).imp_right fun new old =>
        new (List.mem_cons_of_mem _ old)
    · exact .inr (List.mem_singleton.mp last ▸ fresh)
  · exact List.append_subset.mpr ⟨ordered.entered, by simpa using isEntered⟩
  · exact List.nodup_append.mpr ⟨ordered.distinct, by simp, by
      intro other done _ last same
      exact unfinished (List.mem_singleton.mp last ▸ same ▸ done)⟩
  · exact ordered.parentsFirst.concat fun parent isParent =>
      above.of_continues continues parent (covered isParent)
  · intro other member
    rcases reached other member with before | ⟨parent, isParent, leads⟩
    · rcases List.mem_cons.mp before with rfl | earlier
      · exact .inr .refl
      · exact .inl earlier
    · exact .inr (.head isParent leads)

variable [DecidableEq α]

theorem entered_subset_visit (parents : α → List α) (bound : Nat) (search : Search α) (node : α) :
    search.entered ⊆ (visit parents bound search node).entered := by
  induction bound generalizing search node with
  | zero => exact List.Subset.refl _
  | succ bound ih =>
    rw [visit]
    split
    · exact List.Subset.refl _
    · refine List.Subset.trans (List.subset_cons_self node _) ?_
      refine List.foldlRecOn (parents node) (visit parents bound)
        (motive := fun result => node :: search.entered ⊆ result.entered) ?_ ?_
      · exact List.Subset.refl _
      · exact fun result kept parent _ => List.Subset.trans kept (ih result parent)

/-- Bounds that agree on each visit agree on visits to several nodes. -/
theorem foldl_visit_congr {more : Nat} (items : List α) (start : Search α)
    (each : ∀ search item, item ∈ items → start.entered ⊆ search.entered →
      visit parents more search item = visit parents bound search item) :
    items.foldl (visit parents more) start = items.foldl (visit parents bound) start := by
  induction items generalizing start with
  | nil => rfl
  | cons item rest ih =>
    rw [List.foldl_cons, List.foldl_cons, each start item List.mem_cons_self (List.Subset.refl _)]
    exact ih _ fun search other member kept =>
      each search other (List.mem_cons_of_mem _ member)
        (List.Subset.trans (entered_subset_visit ..) kept)

variable (distinct : nodes.Nodup) (outside : ∀ node, node ∉ nodes → parents node = [])
include distinct outside

/-- Entering a node that has parents leaves less to visit. -/
theorem room_after (isParent : parents node ≠ []) {search : Search α}
    (fresh : node ∉ search.entered)
    (room : (unseen nodes search.entered).length < bound + 1) :
    (unseen nodes (node :: search.entered)).length < bound := by
  have isNode : node ∈ nodes := by
    by_contra absent
    exact isParent (outside node absent)
  have fewer := (unseen_perm_cons distinct isNode fresh).length_eq
  rw [List.length_cons] at fewer
  omega

/-- More steps than there are nodes to enter change nothing. -/
theorem visit_of_le {more : Nat} (larger : bound ≤ more) (search : Search α) (node : α)
    (room : (unseen nodes search.entered).length < bound) :
    visit parents more search node = visit parents bound search node := by
  induction bound generalizing more search node with
  | zero => omega
  | succ bound ih =>
    obtain ⟨more, rfl⟩ : ∃ fewer, more = fewer + 1 := ⟨more - 1, by omega⟩
    rw [visit, visit]
    split
    · rfl
    · next fresh =>
      rw [foldl_visit_congr (parents node) { search with entered := node :: search.entered }]
      intro current parent isParent kept
      have roomAfter := room_after distinct outside (List.ne_nil_of_mem isParent) fresh room
      exact ih (by omega) current parent
        (Nat.lt_of_le_of_lt (length_unseen_mono kept) roomAfter)

/-- A visit to a node with enough room to visit all nodes that were not entered. -/
theorem visits_visit (bound : Nat) (search : Search α) (node : α)
    (room : (unseen nodes search.entered).length < bound) (ordered : search.Ordered parents)
    (above : search.Above parents node) :
    Visits parents node search (visit parents bound search node) := by
  induction bound generalizing search node with
  | zero => omega
  | succ bound ih =>
    rw [visit]
    split
    · next known => exact ⟨.refl search, ordered, known, fun _ member => .inl member⟩
    · next fresh =>
      -- While the parents are searched the node is entered and not finished, and it leads to
      -- each of them.
      have leads : Above parents { search with entered := node :: search.entered } node := by
        intro other member
        rcases List.mem_cons.mp member with rfl | earlier
        · exact .inr .refl
        · exact above other earlier
      have entered : Ordered parents { search with entered := node :: search.entered } :=
        ⟨List.Subset.trans ordered.entered (List.subset_cons_self ..), ordered.distinct,
          ordered.parentsFirst⟩
      obtain ⟨continues, sorted, covered, reached⟩ := foldl_visits (visit parents bound)
        (parents node) entered fun current parent isParent continues sorted =>
          ih current parent
            (Nat.lt_of_le_of_lt (length_unseen_mono continues.entered)
              (room_after distinct outside (List.ne_nil_of_mem isParent) fresh room)) sorted
            (Above.of_continues (fun other member =>
              (leads other member).imp_right (·.tail isParent)) continues)
      exact visits_finish fresh ordered.entered leads continues sorted covered reached

end Search

section Order

variable [DecidableEq α] {parents : α → List α} (distinct : nodes.Nodup)
  (outside : ∀ node, node ∉ nodes → parents node = []) (room : nodes.length < bound)
include distinct outside room

/-- The roots are all listed, with nothing but what they lead to, nothing is listed twice, and
parents come first. -/
theorem postOrder_parentsFirst (roots : List α) :
    roots ⊆ postOrder parents bound roots ∧
      (∀ node ∈ postOrder parents bound roots, ∃ root ∈ roots, Leads parents root node) ∧
      (postOrder parents bound roots).Nodup ∧
      ParentsFirst parents (postOrder parents bound roots) := by
  have blank : Search.Ordered parents {} := ⟨by simp, by simp, by simp [ParentsFirst]⟩
  obtain ⟨continues, sorted, covered, reached⟩ := Search.foldl_visits
    (Search.visit parents bound) roots blank fun search node _ continues sorted =>
      Search.visits_visit distinct outside bound search node
        (Nat.lt_of_le_of_lt (List.length_filter_le ..) room) sorted
        (Search.Above.of_continues (by simp [Search.Above]) continues)
  refine ⟨fun node isRoot => ?_, fun node member => ?_, sorted.distinct, sorted.parentsFirst⟩
  · exact (continues.completed node (covered isRoot)).resolve_left (by simp)
  · exact (reached node (sorted.entered member)).resolve_left (by simp)

/-- More steps than there are nodes change nothing. -/
theorem postOrder_of_le {more : Nat} (larger : bound ≤ more) (roots : List α) :
    postOrder parents more roots = postOrder parents bound roots := by
  rw [postOrder, postOrder, Search.foldl_visit_congr roots {}]
  intro search root _ _
  exact Search.visit_of_le distinct outside larger search root
    (Nat.lt_of_le_of_lt (List.length_filter_le ..) room)

end Order

end PostOrder

end DomainLang.Graph
