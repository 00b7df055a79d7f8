import MacroMarkup.Proofs.Text.Split
import Mathlib.Data.List.SplitBy

/-! The paragraphs of plain text. Runs of spaces and line breaks separate words, and those
with two line breaks or more separate paragraphs. -/
namespace MacroMarkup.Text

/-- A space or a line break. Every other character is visible, a tab like a letter. -/
def isSpacing (c : Char) : Bool :=
  c = ' ' || c = '\n'

/-- The maximal runs of spaces and line breaks, and of visible characters. -/
def runs (text : List Char) : List (List Char) :=
  text.splitBy fun c d => isSpacing c == isSpacing d

/-- Whether a run has line breaks enough to end a paragraph. -/
def isBoundary (run : List Char) : Bool :=
  2 ≤ run.count '\n'

/-- The runs of visible characters. -/
def words (runs : List (List Char)) : List (List Char) :=
  runs.filter fun run => !run.all isSpacing

/-- The words of every piece between boundaries, but for the pieces that have none. -/
def paragraphs (runs : List (List Char)) : List (List (List Char)) :=
  ((runs.splitOnP isBoundary).map words).filter (!·.isEmpty)

/-- Paragraphs with a space between words, each between a beginning and an ending. -/
def layOut (beginning ending : List Char) (paragraphs : List (List (List Char))) : List Char :=
  paragraphs.flatMap fun words => beginning ++ [' '].intercalate words ++ ending

/-- What comes behind a word: the rest of its paragraph, each word behind a space, and the
paragraphs that follow. -/
def layOutBehind (beginning ending : List Char) (runs : List (List Char)) : List Char :=
  match runs.splitOnP isBoundary with
  | [] => ending
  | piece :: pieces =>
    (words piece).flatMap (' ' :: ·) ++ ending ++
      layOut beginning ending ((pieces.map words).filter (!·.isEmpty))

/-- Runs that take turns, the first of them one of spacing or one of visible characters. -/
inductive Alternating : Bool → List (List Char) → Prop where
  | nil (spacing : Bool) : Alternating spacing []
  | cons {spacing : Bool} {run : List Char} {runs : List (List Char)} : run ≠ [] →
      (∀ c ∈ run, isSpacing c = spacing) → Alternating (!spacing) runs →
      Alternating spacing (run :: runs)

theorem spacing_iff {text : List Char} : Spacing text ↔ ∀ c ∈ text, isSpacing c = true := by
  simp [Spacing, isSpacing]

theorem visible_iff {c : Char} : isSpacing c = false ↔ c ≠ ' ' ∧ c ≠ '\n' := by
  simp [isSpacing]

/-! The runs of a text. -/

/-- The runs of a text are the whole text. -/
theorem flatten_runs (text : List Char) : (runs text).flatten = text :=
  List.flatten_splitBy _ text

/-- All characters of a run are of one kind. -/
theorem isSpacing_eq_of_isChain {c : Char} {run : List Char}
    (h : (c :: run).IsChain fun c d => (isSpacing c == isSpacing d) = true) :
    ∀ d ∈ c :: run, isSpacing d = isSpacing c := by
  induction run generalizing c with
  | nil => simp
  | cons e run ih =>
      rw [List.isChain_cons_cons, beq_iff_eq] at h
      rw [List.forall_mem_cons, h.1]
      exact ⟨rfl, ih h.2⟩

/-- Runs of like characters, of which no two neighbours are alike, alternate. -/
theorem alternating_of_isChain {c : Char} {run : List Char} {rest : List (List Char)}
    (hFilled : [] ∉ rest)
    (hInside : ∀ run' ∈ (c :: run) :: rest,
      run'.IsChain fun c d => (isSpacing c == isSpacing d) = true)
    (hBetween : ((c :: run) :: rest).IsChain fun run next =>
      ∃ hRun hNext, (isSpacing (run.getLast hRun) == isSpacing (next.head hNext)) = false) :
    Alternating (isSpacing c) ((c :: run) :: rest) := by
  have hSame := isSpacing_eq_of_isChain (hInside (c :: run) List.mem_cons_self)
  refine .cons (List.cons_ne_nil c run) hSame ?_
  induction rest generalizing c run with
  | nil => exact .nil _
  | cons next rest ih =>
      rw [List.mem_cons, not_or] at hFilled
      obtain ⟨d, more, rfl⟩ := List.exists_cons_of_ne_nil (Ne.symm hFilled.1)
      rw [List.forall_mem_cons] at hInside
      rw [List.isChain_cons_cons] at hBetween
      obtain ⟨⟨hRun, hHead, hDiffers⟩, hBetween⟩ := hBetween
      have hTurn : isSpacing d = !isSpacing c := by
        have hLast := hSame _ (List.getLast_mem hRun)
        rw [hLast, List.head_cons] at hDiffers
        exact Bool.eq_not.mpr (Ne.symm (ne_of_beq_false hDiffers))
      have hNext := isSpacing_eq_of_isChain (hInside.2 (d :: more) List.mem_cons_self)
      rw [← hTurn]
      exact .cons (List.cons_ne_nil d more) hNext (ih hFilled.2 hInside.2 hBetween hNext)

/-- The runs of a text take turns. -/
theorem exists_alternating_runs (text : List Char) :
    ∃ spacing, Alternating spacing (runs text) := by
  cases hRuns : runs text with
  | nil => exact ⟨true, .nil true⟩
  | cons run rest =>
      obtain ⟨-, hFilled, hInside, hBetween⟩ := List.splitBy_eq_iff.mp hRuns
      rw [List.mem_cons, not_or] at hFilled
      obtain ⟨c, more, rfl⟩ := List.exists_cons_of_ne_nil (Ne.symm hFilled.1)
      exact ⟨isSpacing c, alternating_of_isChain hFilled.2 hInside hBetween⟩

/-! What one more run makes of the paragraphs. -/

variable {beginning ending : List Char} {run : List Char} {rest : List (List Char)}

/-- A visible run is no boundary. -/
theorem isBoundary_of_visible (hVisible : ∀ c ∈ run, isSpacing c = false) :
    isBoundary run = false := by
  have hBreaks : run.count '\n' = 0 := by
    rw [List.count_eq_zero]
    exact fun hMem => absurd (hVisible '\n' hMem) (by decide)
  rw [isBoundary, hBreaks]
  rfl

/-- Blanks are no word. -/
theorem words_cons_spacing (hSpacing : ∀ c ∈ run, isSpacing c = true) (rest : List (List Char)) :
    words (run :: rest) = words rest := by
  have hAll : run.all isSpacing = true := List.all_eq_true.mpr hSpacing
  rw [words, List.filter_cons, hAll]
  rfl

/-- A visible run is a word. -/
theorem words_cons_visible (hFilled : run ≠ []) (hVisible : ∀ c ∈ run, isSpacing c = false)
    (rest : List (List Char)) : words (run :: rest) = run :: words rest := by
  obtain ⟨c, more, rfl⟩ := List.exists_cons_of_ne_nil hFilled
  have hAll : (c :: more).all isSpacing = false := by
    rw [List.all_cons, hVisible c List.mem_cons_self, Bool.false_and]
  rw [words, List.filter_cons, hAll]
  rfl

/-- Words are separated by single spaces. -/
theorem intercalate_cons (word : List Char) (words : List (List Char)) :
    [' '].intercalate (word :: words) = word ++ words.flatMap (' ' :: ·) := by
  induction words generalizing word with
  | nil => simp
  | cons next words ih =>
      rw [List.intercalate_cons_cons, ih, List.flatMap_cons, List.append_assoc]
      rfl

/-- Boundaries leave one piece at least. -/
theorem exists_pieces (runs : List (List Char)) :
    ∃ piece pieces, runs.splitOnP isBoundary = piece :: pieces :=
  List.exists_cons_of_ne_nil (List.splitOnP_ne_nil isBoundary runs)

/-- A run of spacing does not show in the paragraphs that start with it. -/
theorem paragraphs_cons_spacing (hSpacing : ∀ c ∈ run, isSpacing c = true)
    (rest : List (List Char)) : paragraphs (run :: rest) = paragraphs rest := by
  obtain ⟨piece, pieces, hPieces⟩ := exists_pieces rest
  rw [paragraphs, paragraphs, List.splitOnP_cons_eq_if_modifyHead, hPieces]
  split
  · rfl
  · rw [List.modifyHead_cons, List.map_cons, words_cons_spacing hSpacing, List.map_cons]

/-- A text that starts with a visible run begins a paragraph. -/
theorem layOut_cons_visible (hFilled : run ≠ []) (hVisible : ∀ c ∈ run, isSpacing c = false)
    (rest : List (List Char)) :
    layOut beginning ending (paragraphs (run :: rest)) =
      beginning ++ run ++ layOutBehind beginning ending rest := by
  obtain ⟨piece, pieces, hPieces⟩ := exists_pieces rest
  rw [paragraphs, layOutBehind, List.splitOnP_cons_eq_if_modifyHead, isBoundary_of_visible hVisible,
    if_neg (by decide), hPieces, List.modifyHead_cons, List.map_cons,
    words_cons_visible hFilled hVisible, List.filter_cons_of_pos rfl]
  dsimp only
  rw [layOut, List.flatMap_cons, intercalate_cons, layOut]
  simp only [List.append_assoc]

theorem layOut_nil : layOut beginning ending (paragraphs []) = [] := rfl

/-- At the end the paragraph ends. -/
theorem layOutBehind_nil : layOutBehind beginning ending [] = ending := by
  simp [layOutBehind, words, layOut]

/-- Behind a word, spacing ends the paragraph if it is a boundary, else it does not show. -/
theorem layOutBehind_cons_spacing (hSpacing : ∀ c ∈ run, isSpacing c = true)
    (rest : List (List Char)) :
    layOutBehind beginning ending (run :: rest) =
      if isBoundary run then ending ++ layOut beginning ending (paragraphs rest)
      else layOutBehind beginning ending rest := by
  obtain ⟨piece, pieces, hPieces⟩ := exists_pieces rest
  rw [layOutBehind, List.splitOnP_cons_eq_if_modifyHead]
  by_cases hBoundary : isBoundary run
  · rw [if_pos hBoundary, if_pos hBoundary]
    rfl
  · rw [if_neg hBoundary, if_neg hBoundary, layOutBehind, hPieces, List.modifyHead_cons]
    dsimp only
    rw [words_cons_spacing hSpacing]

/-- Another word of a paragraph stands behind a space. -/
theorem layOutBehind_cons_visible (hFilled : run ≠ []) (hVisible : ∀ c ∈ run, isSpacing c = false)
    (rest : List (List Char)) :
    layOutBehind beginning ending (run :: rest) =
      ' ' :: (run ++ layOutBehind beginning ending rest) := by
  obtain ⟨piece, pieces, hPieces⟩ := exists_pieces rest
  rw [layOutBehind, layOutBehind, List.splitOnP_cons_eq_if_modifyHead,
    isBoundary_of_visible hVisible, if_neg (by decide), hPieces, List.modifyHead_cons]
  dsimp only
  rw [words_cons_visible hFilled hVisible, List.flatMap_cons]
  simp only [List.append_assoc, List.cons_append]

end MacroMarkup.Text
