import MacroMarkup.Proofs.Text.Split
import MacroMarkup.Text.Blank
import Mathlib.Data.List.DropRight

/-! Trimmed texts, and what trimming removes. -/
namespace MacroMarkup.Text

theorem isAllBlank_append (text text' : List Char) :
    isAllBlank (text ++ text') = (isAllBlank text && isAllBlank text') :=
  List.all_append

theorem not_mem_of_isAllBlank {blanks : List Char} (hBlanks : isAllBlank blanks = true) {c : Char}
    (hVisible : isBlank c = false) : c ∉ blanks := by
  intro hMem
  have hBlank := List.all_eq_true.mp hBlanks c hMem
  rw [hVisible] at hBlank
  cases hBlank

/-- Nothing is trimmed in front of a visible character. -/
theorem trimStart_eq_self_iff {text : List Char} :
    trimStart text = text ↔ ∀ c ∈ text.head?, isBlank c = false := by
  cases text with
  | nil => simp [trimStart]
  | cons c text =>
      unfold trimStart
      rw [List.dropWhile_eq_self_iff]
      simp

/-- Nothing is trimmed behind a visible character. -/
theorem trimEnd_eq_self_iff {text : List Char} :
    trimEnd text = text ↔ ∀ c ∈ text.getLast?, isBlank c = false := by
  rw [← List.head?_reverse, ← trimStart_eq_self_iff]
  exact List.reverse_eq_iff

theorem trimStart_suffix (text : List Char) : trimStart text <:+ text :=
  List.dropWhile_suffix _

theorem trimEnd_isPrefix (text : List Char) : trimEnd text <+: text :=
  List.rdropWhile_prefix isBlank text

/-- A text is trimmed if it has no blanks at its ends. -/
theorem trim_eq_self_iff {text : List Char} :
    trim text = text ↔
      (∀ c ∈ text.head?, isBlank c = false) ∧ ∀ c ∈ text.getLast?, isBlank c = false := by
  rw [← trimStart_eq_self_iff, ← trimEnd_eq_self_iff]
  constructor
  · intro hTrim
    have hStart : trimStart text = text := by
      refine (trimStart_suffix text).eq_of_length (Nat.le_antisymm (trimStart_suffix text).length_le ?_)
      calc text.length = (trim text).length := by rw [hTrim]
        _ ≤ (trimStart text).length := (trimEnd_isPrefix _).length_le
    refine ⟨hStart, ?_⟩
    rwa [trim, hStart] at hTrim
  · rintro ⟨hStart, hEnd⟩
    rw [trim, hStart, hEnd]

theorem trim_of_visible {text : List Char} (hVisible : ∀ c ∈ text, isBlank c = false) :
    trim text = text :=
  trim_eq_self_iff.mpr ⟨fun c hHead => hVisible c (List.mem_of_head? hHead),
    fun c hLast => hVisible c (List.mem_of_getLast? hLast)⟩

/-- Trimming twice is trimming once. -/
theorem trim_trim (text : List Char) : trim (trim text) = trim text := by
  have hEnd : trimEnd (trim text) = trim text := List.rdropWhile_idempotent isBlank _
  have hStart : trimStart (trim text) = trim text := by
    rw [trimStart_eq_self_iff]
    intro c hHead
    obtain ⟨more, hMore⟩ := trimEnd_isPrefix (trimStart text)
    have hFirst : trimStart (trimStart text) = trimStart text := List.dropWhile_idempotent _ _
    refine trimStart_eq_self_iff.mp hFirst c ?_
    have hBoth : (trim text ++ more).head? = (trimStart text).head? := congrArg List.head? hMore
    rw [← hBoth, List.head?_append, Option.mem_def.mp hHead]
    rfl
  rw [trim, hStart, hEnd]

/-- Trimming removes blanks at both ends, and nothing else. -/
theorem trim_surroundings (text : List Char) :
    ∃ before after, isAllBlank before = true ∧ isAllBlank after = true ∧
      text = before ++ trim text ++ after := by
  refine ⟨text.takeWhile isBlank, (trimStart text).rtakeWhile isBlank, ?_, ?_, ?_⟩
  · exact List.all_takeWhile
  · exact List.all_eq_true.mpr fun c hMem => List.mem_rtakeWhile_imp hMem
  · have hEnd : trim text ++ (trimStart text).rtakeWhile isBlank = trimStart text :=
      List.rdropWhile_append_rtakeWhile
    rw [List.append_assoc, hEnd]
    exact List.takeWhile_append_dropWhile.symm

/-- A mark in front of a trimmed text stays where it is. -/
theorem trim_marked {mark : Char} (hMark : isBlank mark = false) (between : List Char)
    {text : List Char} (hSome : text ≠ []) (hTrim : trim text = text) :
    trim (mark :: (between ++ text)) = mark :: (between ++ text) := by
  rw [trim_eq_self_iff]
  constructor
  · rintro c hHead
    cases hHead
    exact hMark
  · intro c hLast
    refine (trim_eq_self_iff.mp hTrim).2 c ?_
    rwa [← List.cons_append, List.getLast?_append_of_ne_nil _ hSome] at hLast

theorem trimStart_append {blanks : List Char} (hBlanks : isAllBlank blanks = true)
    (text : List Char) : trimStart (blanks ++ text) = trimStart text :=
  List.dropWhile_append_of_pos (List.all_eq_true.mp hBlanks)

theorem trimEnd_append (text : List Char) {blanks : List Char}
    (hBlanks : isAllBlank blanks = true) : trimEnd (text ++ blanks) = trimEnd text := by
  have hReverse : ∀ c ∈ blanks.reverse, isBlank c = true := fun c hMem =>
    List.all_eq_true.mp hBlanks c (List.mem_reverse.mp hMem)
  unfold trimEnd
  rw [List.reverse_append, List.dropWhile_append_of_pos hReverse]

/-- Blanks around a trimmed text are trimmed away. -/
theorem trim_between {before text after : List Char} (hBefore : isAllBlank before = true)
    (hAfter : isAllBlank after = true) (hTrim : trim text = text) :
    trim (before ++ text ++ after) = text := by
  obtain ⟨hHead, -⟩ := trim_eq_self_iff.mp hTrim
  rw [List.append_assoc, trim, trimStart_append hBefore]
  cases text with
  | nil =>
      have hNone : trimStart after = [] := List.dropWhile_eq_nil_iff.mpr (List.all_eq_true.mp hAfter)
      rw [List.nil_append, hNone]
      rfl
  | cons c text =>
      have hStart : trimStart (c :: text ++ after) = c :: text ++ after :=
        trimStart_eq_self_iff.mpr hHead
      have hKept : trimStart (c :: text) = c :: text := trimStart_eq_self_iff.mpr hHead
      rw [hStart, trimEnd_append _ hAfter]
      rwa [trim, hKept] at hTrim

end MacroMarkup.Text
