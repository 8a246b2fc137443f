import DomainLang.Source.File
import Mathlib.Data.List.Basic

/-!
# Lines and columns

What the search through the line starts answers for an offset, in terms of the bytes of the text:
the line is one more than the number of newlines before the offset, and the column counts from the
last of them. There is one exception. The end of the text is listed among the line starts, so the
end of a text without a final newline is answered as the start of one more line.
-/

namespace DomainLang

namespace Text

/-- The byte of a newline, which no other character has. -/
def newline : UInt8 := 10

/-- How many newlines there are before an offset. -/
def newlinesBefore (bytes : List UInt8) (offset : Nat) : Nat :=
  (bytes.take offset).count newline

/-- The offset just after the last newline before an offset, or zero if there is none. -/
def lineStart (bytes : List UInt8) : (offset : Nat) → Nat
  | 0 => 0
  | offset + 1 => if bytes[offset]? = some newline then offset + 1 else lineStart bytes offset

/-- Where the lines start that start up to an offset. -/
def startsUpTo (bytes : List UInt8) (offset : Nat) : List Nat :=
  (List.range (offset + 1)).filter fun position =>
    position = 0 ∨ bytes[position - 1]? = some newline

section Starts

variable (bytes : List UInt8) (offset : Nat)

theorem startsUpTo_succ : startsUpTo bytes (offset + 1) = startsUpTo bytes offset ++
    if bytes[offset]? = some newline then [offset + 1] else [] := by
  rw [startsUpTo, List.range_succ, List.filter_append, ← startsUpTo]
  by_cases ends : bytes[offset]? = some newline <;> simp [ends]

theorem length_startsUpTo :
    (startsUpTo bytes offset).length = newlinesBefore bytes offset + 1 := by
  induction offset with
  | zero => rfl
  | succ offset ih =>
    have counted : newlinesBefore bytes (offset + 1) =
        newlinesBefore bytes offset + bytes[offset]?.toList.count newline := by
      rw [newlinesBefore, List.take_add_one, List.count_append, ← newlinesBefore]
    rw [startsUpTo_succ, List.length_append, ih, counted]
    cases bytes[offset]? with
    | none => simp
    | some byte => by_cases ends : byte = newline <;> simp [ends]

theorem getLast?_startsUpTo :
    (startsUpTo bytes offset).getLast? = some (lineStart bytes offset) := by
  induction offset with
  | zero => rfl
  | succ offset ih =>
    rw [startsUpTo_succ, lineStart]
    split
    · exact List.getLast?_concat
    · rwa [List.append_nil]

theorem pairwise_startsUpTo : (startsUpTo bytes offset).Pairwise (· < ·) :=
  List.pairwise_lt_range.filter _

theorem lineStart_le : lineStart bytes offset ≤ offset := by
  have member := List.mem_of_getLast? (getLast?_startsUpTo bytes offset)
  exact Nat.le_of_lt_succ (List.mem_range.mp (List.mem_of_mem_filter member))

variable {bytes offset}

theorem le_of_mem_startsUpTo {start : Nat} (member : start ∈ startsUpTo bytes offset) :
    start ≤ lineStart bytes offset := by
  obtain ⟨earlier, starts⟩ := List.getLast?_eq_some_iff.mp (getLast?_startsUpTo bytes offset)
  have increasing := pairwise_startsUpTo bytes offset
  rw [starts] at member increasing
  rcases List.mem_append.mp member with before | last
  · have := (List.pairwise_append.mp increasing).2.2 start before _ (List.mem_singleton_self _)
    omega
  · exact Nat.le_of_eq (List.mem_singleton.mp last)

/-- The lines that start later start after the offset. -/
theorem startsUpTo_of_le {more : Nat} (later : offset ≤ more) :
    ∃ rest, startsUpTo bytes more = startsUpTo bytes offset ++ rest ∧
      ∀ start ∈ rest, offset < start := by
  obtain ⟨size, rfl⟩ := Nat.exists_eq_add_of_le later
  rw [startsUpTo, Nat.add_right_comm, List.range_add, List.filter_append]
  refine ⟨_, rfl, fun start member => ?_⟩
  obtain ⟨index, -, rfl⟩ := List.mem_map.mp (List.mem_of_mem_filter member)
  omega

/-- Where there is no newline no line starts. -/
theorem startsUpTo_add (offset size : Nat)
    (inside : ∀ index < size, bytes[offset + index]? ≠ some newline) :
    startsUpTo bytes (offset + size) = startsUpTo bytes offset := by
  induction size with
  | zero => rfl
  | succ size ih =>
    rw [← Nat.add_assoc, startsUpTo_succ, if_neg (inside size (Nat.lt_succ_self _)),
      List.append_nil]
    exact ih fun index below => inside index (by omega)

end Starts

section Encoding

theorem newline_mem_utf8EncodeChar {character : Char} :
    newline ∈ String.utf8EncodeChar character ↔ character = '\n' := by
  constructor
  · intro member
    have ten : newline.toNat = 10 := rfl
    simp only [String.utf8EncodeChar] at member
    split_ifs at member with small
    all_goals simp only [List.mem_cons, List.not_mem_nil, or_false, ← UInt8.toNat_inj,
      UInt8.toNat_ofNat', ten] at member
    · refine Char.ext (UInt32.toNat_inj.mp ?_)
      change character.val.toNat = 10
      omega
    -- the other bytes that encode characters are all above 127
    all_goals omega
  · rintro rfl
    decide

/-- A character moves the starts on by at most one. -/
theorem startsUpTo_character (front rest : List UInt8) (character : Char) :
    startsUpTo (front ++ (String.utf8EncodeChar character ++ rest))
        (front.length + character.utf8Size) =
      startsUpTo (front ++ (String.utf8EncodeChar character ++ rest)) front.length ++
        if character = '\n' then [front.length + 1] else [] := by
  by_cases ends : character = '\n'
  · subst ends
    refine (startsUpTo_succ ..).trans (congrArg _ (if_pos ?_))
    rw [List.getElem?_append_right (Nat.le_refl _), Nat.sub_self]
    rfl
  · rw [if_neg ends, List.append_nil]
    refine startsUpTo_add _ _ fun index below isNewline => ends ?_
    rw [List.getElem?_append_right (Nat.le_add_right ..), Nat.add_sub_cancel_left,
      List.getElem?_append_left (by rwa [String.length_utf8EncodeChar])] at isNewline
    exact newline_mem_utf8EncodeChar.mp (List.mem_of_getElem? isNewline)

/-- The starts that are read off the characters are those of the bytes. -/
theorem startsUpTo_length (front : List UInt8) (characters : List Char) :
    startsUpTo (front ++ characters.flatMap String.utf8EncodeChar) front.length ++
        newlineEnds front.length characters =
      startsUpTo (front ++ characters.flatMap String.utf8EncodeChar)
        (front ++ characters.flatMap String.utf8EncodeChar).length := by
  induction characters generalizing front with
  | nil => simp [newlineEnds]
  | cons character characters ih =>
    have next := ih (front ++ String.utf8EncodeChar character)
    rw [List.length_append, String.length_utf8EncodeChar, List.append_assoc,
      startsUpTo_character] at next
    rw [List.flatMap_cons, ← next, newlineEnds, List.append_assoc]
    by_cases ends : character = '\n'
    · subst ends
      rfl
    · simp [ends]

def bytes (text : String) : List UInt8 :=
  text.toUTF8.data.toList

theorem bytes_eq (text : String) : bytes text = text.toList.flatMap String.utf8EncodeChar := by
  have encoded : text.toUTF8 = text.toList.utf8Encode := by
    rw [← String.toByteArray_ofList, String.ofList_toList, String.toUTF8]
  rw [bytes, encoded, List.utf8Encode, List.data_toByteArray, List.toList_toArray]

theorem length_bytes (text : String) : (bytes text).length = text.utf8ByteSize :=
  rfl

end Encoding

section Search

/-- The answer is the position before a given one, or this one as the place to insert. -/
def Locates (position : Nat) : Except Nat Nat → Prop
  | .ok index => index + 1 = position
  | .error index => index = position

/-- A search ends between the offsets up to the target and those after it. -/
theorem locates_search {offsets : Array Nat} {target position : Nat}
    (increasing : ∀ first second, first < second → second < offsets.size →
      offsets.getD first 0 < offsets.getD second 0)
    (below : ∀ index < position, offsets.getD index 0 ≤ target)
    (above : ∀ index < offsets.size, position ≤ index → target < offsets.getD index 0)
    {low high : Nat} (fromLow : low ≤ position) (upToHigh : position ≤ high)
    (inside : high ≤ offsets.size) : Locates position (search offsets target low high) := by
  fun_induction search offsets target low high with
  | case1 low high more middle found here =>
    change middle + 1 = position
    have within : middle < offsets.size := by omega
    have before : middle < position := by
      by_contra after
      have := above middle within (by omega)
      omega
    by_contra early
    have := increasing middle (position - 1) (by omega) (by omega)
    have := below (position - 1) (by omega)
    omega
  | case2 low high more middle found differs less ih =>
    refine ih ?_ upToHigh inside
    by_contra after
    have := above middle (by omega) (by omega)
    omega
  | case3 low high more middle found differs notLess ih =>
    refine ih fromLow ?_ (by omega)
    by_contra before
    have := below middle (by omega)
    omega
  | case4 low high empty => exact show low = position by omega

end Search
end Text

namespace SourceFile

open Text

variable {file : SourceFile} {offset last : Nat} {front back : List Nat}

/-- The search finds where the starts up to an offset end. -/
theorem lineIndex_of_split (split : file.lineStarts = front ++ back)
    (increasing : file.lineStarts.Pairwise (· < ·)) (below : ∀ start ∈ front, start ≤ offset)
    (above : ∀ start ∈ back, offset < start) (nonempty : front ≠ []) :
    file.lineIndex offset + 1 = front.length := by
  have located : Locates front.length
      (search file.lineStarts.toArray offset 0 file.lineStarts.toArray.size) := by
    rw [split] at increasing ⊢
    apply locates_search
    · intro first second before inside
      have inside : second < (front ++ back).length := inside
      have earlier : first < (front ++ back).length := Nat.lt_trans before inside
      simpa only [Array.getD_eq_getD_getElem?, List.getElem?_toArray, Option.getD_some,
        List.getElem?_eq_getElem earlier, List.getElem?_eq_getElem inside] using
        List.pairwise_iff_getElem.mp increasing first second earlier inside before
    · intro index before
      apply below
      simp [List.getElem?_append_left before, before]
    · intro index inside after
      apply above
      have inside : index < (front ++ back).length := inside
      rw [List.length_append] at inside
      have within : index - front.length < back.length := by omega
      simp [List.getElem?_append_right after, within]
    · exact Nat.zero_le _
    · simp
    · exact Nat.le_refl _
  have some_start := List.length_pos_iff.mpr nonempty
  rw [lineIndex]
  cases found : search file.lineStarts.toArray offset 0 file.lineStarts.toArray.size with
  | ok index =>
    rw [found] at located
    exact located
  | error index =>
    rw [found] at located
    change index = front.length at located
    change max index 1 - 1 + 1 = front.length
    omega

theorem lineColumn?_of_split (known : file.text ≠ "") (inside : offset ≤ (bytes file.text).length)
    (split : file.lineStarts = front ++ back) (increasing : file.lineStarts.Pairwise (· < ·))
    (below : ∀ start ∈ front, start ≤ offset) (above : ∀ start ∈ back, offset < start)
    (isLast : front.getLast? = some last) :
    file.lineColumn? offset = some (front.length, offset - last + 1) := by
  obtain ⟨earlier, rfl⟩ := List.getLast?_eq_some_iff.mp isLast
  have index := lineIndex_of_split split increasing below above (by simp)
  rw [List.length_append, List.length_singleton, Nat.add_right_cancel_iff] at index
  have refused : ¬ (!file.hasText || file.text.utf8ByteSize < offset) = true := by
    rw [length_bytes] at inside
    simpa [hasText, known] using inside
  rw [lineColumn?, if_neg refused]
  simp [index, split]

/-- The starts of the lines, and the end of the text where it is not one of them. -/
theorem lineStarts_eq (file : SourceFile) :
    file.lineStarts = startsUpTo (bytes file.text) (bytes file.text).length ++
      if lineStart (bytes file.text) (bytes file.text).length = (bytes file.text).length then []
      else [(bytes file.text).length] := by
  have starts : 0 :: newlineEnds 0 file.text.toList =
      startsUpTo (bytes file.text) (bytes file.text).length := by
    rw [bytes_eq]
    exact startsUpTo_length [] file.text.toList
  simp only [lineStarts, starts, getLast?_startsUpTo, Option.some.injEq, ← length_bytes]
  split <;> simp

theorem pairwise_lineStarts (file : SourceFile) : file.lineStarts.Pairwise (· < ·) := by
  rw [lineStarts_eq]
  split
  · rw [List.append_nil]
    exact pairwise_startsUpTo ..
  · next apart =>
    refine List.pairwise_append.mpr ⟨pairwise_startsUpTo .., List.pairwise_singleton .., ?_⟩
    intro start member last isLast
    have := le_of_mem_startsUpTo member
    have := lineStart_le (bytes file.text) (bytes file.text).length
    rw [List.mem_singleton.mp isLast]
    omega

/-- Every text has its end at the start of a line exactly when a newline comes before. -/
theorem lineStart_length {text : List UInt8} (nonempty : text ≠ []) :
    lineStart text text.length = text.length ↔ text.getLast? = some newline := by
  obtain ⟨front, last, rfl⟩ := List.eq_nil_or_concat text |>.resolve_left nonempty
  have := lineStart_le (front.concat last) front.length
  rw [List.concat_eq_append] at *
  rw [List.length_append, List.length_singleton, lineStart, List.getLast?_concat,
    List.getElem?_concat_length]
  split
  · simp_all
  · next apart => exact ⟨fun same => by omega, fun ends => absurd ends apart⟩

/-- The line and column of every offset: counted from the newlines before it, except at the end of
a text that does not end with one, which is taken for the start of one more line. -/
theorem lineColumn?_eq (file : SourceFile) (offset : Nat) :
    file.lineColumn? offset =
      if file.text = "" ∨ (bytes file.text).length < offset then none
      else if offset = (bytes file.text).length ∧ (bytes file.text).getLast? ≠ some newline then
        some (newlinesBefore (bytes file.text) offset + 2, 1)
      else
        some (newlinesBefore (bytes file.text) offset + 1,
          offset - lineStart (bytes file.text) offset + 1) := by
  split
  · next outside =>
    rw [length_bytes] at outside
    rw [lineColumn?, if_pos (by simpa [hasText] using outside)]
  · next inside =>
    obtain ⟨known, inside⟩ := not_or.mp inside
    rw [Nat.not_lt] at inside
    have nonempty : bytes file.text ≠ [] := by
      rw [← List.length_pos_iff, length_bytes, Nat.pos_iff_ne_zero]
      exact mt String.utf8ByteSize_eq_zero_iff.mp known
    have below (start : Nat) (member : start ∈ startsUpTo (bytes file.text) offset) :
        start ≤ offset :=
      Nat.le_trans (le_of_mem_startsUpTo member) (lineStart_le ..)
    split
    · next atEnd =>
      -- the end of the text is listed, as one start more than there are lines
      obtain ⟨rfl, unfinished⟩ := atEnd
      have split := file.lineStarts_eq
      rw [if_neg (mt (lineStart_length nonempty).mp unfinished),
        ← List.append_nil (_ ++ _)] at split
      rw [lineColumn?_of_split known inside split file.pairwise_lineStarts _ (by simp)
        List.getLast?_concat]
      · simp [length_startsUpTo]
      · intro start member
        rcases List.mem_append.mp member with earlier | last
        · exact below start earlier
        · exact Nat.le_of_eq (List.mem_singleton.mp last)
    · next counted =>
      obtain ⟨rest, split, above⟩ := startsUpTo_of_le inside
      have starts := file.lineStarts_eq
      rw [split, List.append_assoc] at starts
      rw [lineColumn?_of_split known inside starts file.pairwise_lineStarts below _
        (getLast?_startsUpTo ..), length_startsUpTo]
      intro start member
      rcases List.mem_append.mp member with later | sentinel
      · exact above start later
      · split at sentinel
        · cases sentinel
        · next apart =>
          rw [lineStart_length nonempty] at apart
          rw [List.mem_singleton.mp sentinel]
          exact Nat.lt_of_le_of_ne inside fun atEnd => counted ⟨atEnd, apart⟩

/-- The end of a text of one line is answered as the second line. -/
theorem lineColumn?_end_of_line :
    (⟨"notes", "abc"⟩ : SourceFile).lineColumn? 3 = some (2, 1) ∧
      (newlinesBefore (bytes "abc") 3 + 1, 3 - lineStart (bytes "abc") 3 + 1) = (1, 4) := by
  decide +kernel

end SourceFile
end DomainLang
