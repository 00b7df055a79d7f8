import MacroMarkup.Proofs.Text.Split

/-! The paragraph markers in web output, and texts in which they alternate. -/
namespace MacroMarkup.Text

/-- A paragraph marker of web output. -/
inductive Mark where
  | opening
  | closing
  deriving DecidableEq, Repr

def Mark.text : Mark → List Char
  | opening => "\n<p>".toList
  | closing => "</p>\n".toList

/-- All markers that occur in a text, from left to right. -/
def marks : List Char → List Mark
  | [] => []
  | c :: text =>
    if Mark.opening.text.isPrefixOf (c :: text) then .opening :: marks text
    else if Mark.closing.text.isPrefixOf (c :: text) then .closing :: marks text
    else marks text

/-- Whether markers alternate up to the end of a paragraph, from inside or from outside
of one. -/
def alternate : Bool → List Mark → Bool
  | inside, [] => !inside
  | false, .opening :: marks => alternate true marks
  | true, .closing :: marks => alternate false marks
  | _, _ => false

/-- Text that leads from inside or outside of a paragraph to inside or outside of one.
Apart from the markers it has the first character of both only in names, which a brace
ends. -/
inductive Markup : Bool → Bool → List Char → Prop where
  | nil (inside : Bool) : Markup inside inside []
  | char {inside inside' : Bool} {c : Char} {text : List Char} : c ≠ '<' →
      Markup inside inside' text → Markup inside inside' (c :: text)
  | name {inside inside' : Bool} {name : List Char} {brace : Char} {text : List Char} :
      '\n' ∉ name → brace ∈ ['\x7b', '\x7d'] → Markup inside inside' text →
      Markup inside inside' ('\\' :: (name ++ brace :: text))
  | opening {inside' : Bool} {text : List Char} : Markup true inside' text →
      Markup false inside' (Mark.opening.text ++ text)
  | closing {inside' : Bool} {text : List Char} : Markup false inside' text →
      Markup true inside' (Mark.closing.text ++ text)

variable {inside inside' inside'' : Bool} {text text' : List Char}

theorem Markup.append (h : Markup inside inside' text) (h' : Markup inside' inside'' text') :
    Markup inside inside'' (text ++ text') := by
  induction h with
  | nil => exact h'
  | char hChar _ ih => exact .char hChar (ih h')
  | name hName hBrace _ ih =>
      rw [List.cons_append, List.append_assoc, List.cons_append]
      exact .name hName hBrace (ih h')
  | opening _ ih =>
      rw [List.append_assoc]
      exact .opening (ih h')
  | closing _ ih =>
      rw [List.append_assoc]
      exact .closing (ih h')

/-- A line break in front of such text does not make a marker. -/
theorem Markup.not_tag (h : Markup inside inside' text) : ¬ ['<', 'p', '>'] <+: text := by
  intro hTag
  cases h with
  | nil => simp at hTag
  | char hChar => exact hChar (List.cons_prefix_cons.mp hTag).1.symm
  | name => exact absurd (List.cons_prefix_cons.mp hTag).1 (by decide)
  | opening => exact absurd (List.cons_prefix_cons.mp hTag).1 (by decide)
  | closing =>
      have hSecond := (List.cons_prefix_cons.mp hTag).2
      exact absurd (List.cons_prefix_cons.mp hSecond).1 (by decide)

/-- A character that begins no mark does not count. -/
theorem marks_cons {c : Char} (hOpening : ¬ Mark.opening.text <+: c :: text)
    (hClosing : ¬ Mark.closing.text <+: c :: text) : marks (c :: text) = marks text := by
  rw [← List.isPrefixOf_iff_prefix] at hOpening hClosing
  rw [marks, if_neg hOpening, if_neg hClosing]

theorem Markup.marks_char (h : Markup inside inside' text) {c : Char} (hChar : c ≠ '<') :
    marks (c :: text) = marks text :=
  marks_cons (fun hOpening => h.not_tag (List.cons_prefix_cons.mp hOpening).2)
    (fun hClosing => hChar (List.cons_prefix_cons.mp hClosing).1.symm)

theorem marks_name {name : List Char} (hName : '\n' ∉ name) {brace : Char}
    (hBrace : brace ∈ ['\x7b', '\x7d']) (text : List Char) :
    marks (name ++ brace :: text) = marks (brace :: text) := by
  induction name with
  | nil => rfl
  | cons c name ih =>
      rw [List.mem_cons, not_or] at hName
      rw [List.cons_append, marks_cons, ih hName.2]
      · intro hOpening
        exact hName.1 (List.cons_prefix_cons.mp hOpening).1
      · intro hClosing
        have hWhole : c :: name ++ [brace] <+: c :: (name ++ brace :: text) := ⟨text, by simp⟩
        rcases List.prefix_or_prefix_of_prefix hClosing hWhole with hInside | hShort
        · have hBreak : '\n' ∈ c :: name ++ [brace] := hInside.subset (by decide)
          simp only [List.mem_append, List.mem_cons, List.not_mem_nil, or_false] at hBreak hBrace
          rcases hBreak with (hHead | hTail) | rfl
          · exact hName.1 hHead
          · exact hName.2 hTail
          · exact absurd hBrace (by decide)
        · have hMem : brace ∈ Mark.closing.text := hShort.subset (by simp)
          have hNone : ∀ brace ∈ ['\x7b', '\x7d'], brace ∉ Mark.closing.text := by decide
          exact hNone brace hBrace hMem

/-- The markers of text that leads out of the last paragraph alternate. -/
theorem Markup.alternate (h : Markup inside inside' text) (hEnd : inside' = false) :
    Text.alternate inside (marks text) = true := by
  induction h with
  | nil inside =>
      subst hEnd
      rfl
  | char hChar hText ih =>
      rw [hText.marks_char hChar]
      exact ih hEnd
  | @name _ _ name brace text hName hBrace hText ih =>
      have hBraceChar : brace ≠ '<' := by
        have hAll : ∀ brace ∈ ['\x7b', '\x7d'], brace ≠ '<' := by decide
        exact hAll brace hBrace
      have hEscape : '\n' ∉ '\\' :: name := by
        rw [List.mem_cons, not_or]
        exact ⟨by decide, hName⟩
      rw [← List.cons_append, marks_name hEscape hBrace, hText.marks_char hBraceChar]
      exact ih hEnd
  | @opening _ text hText ih =>
      have hMarks : marks (Mark.opening.text ++ text) = .opening :: marks text := rfl
      rw [hMarks]
      exact ih hEnd
  | @closing _ text hText ih =>
      have hMarks : marks (Mark.closing.text ++ text) = .closing :: marks ('\n' :: text) := rfl
      rw [hMarks, hText.marks_char (by decide)]
      exact ih hEnd

/-- Text without markers, wherever it stands. -/
def Plain (text : List Char) : Prop :=
  ∀ inside, Markup inside inside text

theorem plain_nil : Plain [] :=
  fun inside => .nil inside

theorem Plain.cons {c : Char} (hChar : c ≠ '<') (h : Plain text) : Plain (c :: text) :=
  fun inside => .char hChar (h inside)

theorem Plain.append (h : Plain text) (h' : Plain text') : Plain (text ++ text') :=
  fun inside => (h inside).append (h' inside)

/-- A name in front of a brace. -/
theorem Plain.name {name : List Char} (hName : '\n' ∉ name) {brace : Char}
    (hHead : text.head? = some brace) (hBrace : brace ∈ ['\x7b', '\x7d']) (h : Plain text) :
    Plain ('\\' :: (name ++ text)) := by
  obtain ⟨text, rfl⟩ : ∃ others, text = brace :: others := List.head?_eq_some_iff.mp hHead
  intro inside
  cases h inside with
  | char _ hText => exact .name hName hBrace hText
  | name => exact absurd hBrace (by decide)
  | opening => exact absurd hBrace (by decide)
  | closing => exact absurd hBrace (by decide)

/-- Text without the first character of the marks is plain. -/
theorem plain_of_not_mem (h : '<' ∉ text) : Plain text := by
  induction text with
  | nil => exact plain_nil
  | cons c text ih =>
      rw [List.mem_cons, not_or] at h
      exact .cons (Ne.symm h.1) (ih h.2)

end MacroMarkup.Text
