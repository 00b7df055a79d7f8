import MacroMarkup.Proofs.Expand.Law
import MacroMarkup.Proofs.Text.Rows

/-! Where the cursor stands. Whatever is read of a document, and however that ends, the
cursor is the position of a prefix of the document, in bytes, rows and columns. -/
namespace MacroMarkup

namespace Cursor

/-- A text takes as many bytes as its characters together. -/
theorem utf8ByteSize_cons (c : Char) (text : List Char) :
    (String.ofList (c :: text)).utf8ByteSize = c.utf8Size + (String.ofList text).utf8ByteSize := by
  rw [String.ofList_cons, String.utf8ByteSize_append, String.utf8ByteSize_singleton]

/-- The cursor counts the bytes of what it goes along. -/
theorem pos_advance (cursor : Cursor) (text : List Char) :
    (cursor.advance text).pos = cursor.pos + (String.ofList text).utf8ByteSize := by
  induction text generalizing cursor with
  | nil => rfl
  | cons c text ih =>
      have hNext : (cursor.next c).pos = cursor.pos + c.utf8Size := by
        unfold next
        split <;> rfl
      change ((cursor.next c).advance text).pos = _
      rw [ih, hNext, utf8ByteSize_cons, Nat.add_assoc]

/-- The slice at the end of a prefix is what follows the prefix. -/
theorem dropBytes?_prefix (read rest : List Char) :
    dropBytes? (String.ofList read).utf8ByteSize (read ++ rest) = some rest := by
  induction read with
  | nil => rw [List.nil_append]; unfold dropBytes?; rfl
  | cons c read ih =>
      have hPos := c.utf8Size_pos
      rw [utf8ByteSize_cons]
      generalize (String.ofList read).utf8ByteSize = size at ih ⊢
      obtain ⟨offset, hOffset⟩ : ∃ offset, c.utf8Size + size = offset + 1 :=
        ⟨c.utf8Size + size - 1, by omega⟩
      rw [hOffset, List.cons_append, dropBytes?, if_pos (by omega), ← hOffset,
        Nat.add_sub_cancel_left, ih]

end Cursor

/-- The reader stands behind a prefix of the text, and the cursor says where that is. -/
structure Reader.Stands (reader : Reader) (text : String) (read : List Char) : Prop where
  split : text.toList = read ++ reader.rest
  pos : reader.cursor.pos = (String.ofList read).utf8ByteSize
  row : reader.cursor.row = read.count '\n'
  col : reader.cursor.col = (Text.lastRow read).length

namespace Reader.Stands

variable {reader : Reader} {text : String} {read : List Char} (h : reader.Stands text read)
include h

/-- The text is what has been read and what has not. -/
theorem text_eq : text = String.ofList read ++ String.ofList reader.rest := by
  rw [← String.ofList_append, ← h.split, String.ofList_toList]

/-- The cursor is at most at the end of the text. -/
theorem pos_le : reader.cursor.pos ≤ text.utf8ByteSize := by
  rw [h.pos, h.text_eq, String.utf8ByteSize_append]
  exact Nat.le_add_right _ _

/-- It stands at the boundary of a character. -/
theorem isValid : String.Pos.Raw.IsValid text ⟨reader.cursor.pos⟩ := by
  rw [String.Pos.Raw.isValid_iff_exists_append]
  exact ⟨_, _, h.text_eq, by rw [h.pos]; rfl⟩

/-- The bytes from the cursor on are the text that is left. -/
theorem slice : Cursor.dropBytes? reader.cursor.pos text.toList = some reader.rest := by
  rw [h.pos, h.split, Cursor.dropBytes?_prefix]

end Reader.Stands

/-- A reader that has advanced stands behind what it has read. -/
theorem Reader.stands_advance (text : String) (count : Nat) :
    ((Reader.ofText text).advance count).Stands text (text.toList.take count) := by
  have hCursor : ((Reader.ofText text).advance count).cursor =
      Cursor.start.advance (text.toList.take count) := Reader.cursor_advance count _
  refine ⟨?_, ?_, ?_, ?_⟩
  · rw [Reader.rest_advance]
    exact (List.take_append_drop count text.toList).symm
  · rw [hCursor, Cursor.pos_advance]
    exact Nat.zero_add _
  · rw [hCursor, (Cursor.advance_start _).1]
  · rw [hCursor, (Cursor.advance_start _).2]

namespace Expand

/-- Some characters further on in the same document. -/
def Further (s s' : ExpandState) : Prop :=
  ∃ count, s'.document.reader = s.document.reader.advance count

theorem Further.refl (s : ExpandState) : Further s s :=
  ⟨0, rfl⟩

theorem Further.trans {s₁ s₂ s₃ : ExpandState} (h : Further s₁ s₂) (h' : Further s₂ s₃) :
    Further s₁ s₃ := by
  obtain ⟨count, hFirst⟩ := h
  obtain ⟨count', hSecond⟩ := h'
  exact ⟨count + count', by rw [hSecond, hFirst, Reader.advance_advance]⟩

/-- Nothing but reading moves the reader of a document, and reading moves it forwards. -/
theorem further : Law Further Further where
  refl := Further.refl
  trans := Further.trans
  failing _ _ _ h := h
  exhausted h := h
  refused _ _ h := h
  following _ _ _ _ := Further.trans
  reading _ count := ⟨count, rfl⟩
  moving s _ _ := .refl s
  suspending _ _ h := h
  suspendingFailed _ _ _ h := h
  scoping _ _ h := h
  scopingFailed _ _ _ h := h
  counting s _ := .refl s
  defining s _ _ _ _ _ _ _ := .refl s
  loading s _ := .refl s
  nesting s _ _ _ _ := .refl s
  includingFailed _ s _ _ _ _ _ := .refl s
  generatingFailed _ s _ _ _ := .refl s

/-- The cursor never goes back. -/
theorem Further.pos_le {s s' : ExpandState} (h : Further s s') :
    s.document.reader.cursor.pos ≤ s'.document.reader.cursor.pos := by
  obtain ⟨count, hReader⟩ := h
  rw [hReader, Reader.cursor_advance, Cursor.pos_advance]
  exact Nat.le_add_right _ _

/-- One operation on the document at hand. -/
inductive Operation where
  | verbatimScope
  | parsedScope
  | emptyScope
  | readPast (marker shown : String)
  | expectLineBreak (cause : ErrorCause)
  | block (marker? : Option (List Char))
  | wholeDocument
  | definitionBody (indent : Nat)
  | runBuiltin (builtin : Builtin) (invocation : String)
  | invoke (user : UserMacro) (invocation : String)
  | includeLibrary (name : String)
  | toFixpoint (text : String)

def Operation.after (env : Env) (fuel : Nat) : Operation → ExpandState → ExpandState
  | verbatimScope, s => (outcome Expand.verbatimScope s).2
  | parsedScope, s => (outcome (Expand.parsedScope env (blockReader env fuel)) s).2
  | emptyScope, s => (outcome Expand.emptyScope s).2
  | readPast marker shown, s => (outcome (Expand.readPast marker shown) s).2
  | expectLineBreak cause, s => (outcome (Expand.expectLineBreak cause) s).2
  | block marker?, s => (outcome (Expand.block env fuel marker? "") s).2
  | wholeDocument, s => (outcome (Expand.wholeDocument (blockReader env fuel)) s).2
  | definitionBody indent, s => (outcome (Expand.definitionBody indent) s).2
  | runBuiltin builtin invocation, s =>
      (outcome (Expand.runBuiltin env (blockReader env fuel) builtin invocation) s).2
  | invoke user invocation, s =>
      (outcome (Expand.invoke env (blockReader env fuel) fuel user invocation) s).2
  | includeLibrary name, s => (outcome (Expand.includeLibrary env (blockReader env fuel) name) s).2
  | toFixpoint text, s => (outcome (Expand.toFixpoint (blockReader env fuel) fuel text) s).2

def performAll (env : Env) (fuel : Nat) : List Operation → ExpandState → ExpandState
  | [], s => s
  | operation :: operations, s => performAll env fuel operations (operation.after env fuel s)

theorem performAll_append (env : Env) (fuel : Nat) (operations later : List Operation)
    (s : ExpandState) :
    performAll env fuel (operations ++ later) s =
      performAll env fuel later (performAll env fuel operations s) := by
  induction operations generalizing s with
  | nil => rfl
  | cons operation operations ih => exact ih _

/-- One operation only goes further, whether it fails or not. -/
theorem Operation.further_after (operation : Operation) (env : Env) (fuel : Nat) (s : ExpandState) :
    Further s (operation.after env fuel s) := by
  have hBlock : ∀ marker?, Keeps Further Further (blockReader env fuel marker?) :=
    fun marker? => further.block env fuel marker? ""
  cases operation with
  | verbatimScope => exact further.verbatimScope.always rfl
  | parsedScope => exact (further.parsedScope env hBlock).always rfl
  | emptyScope => exact further.emptyScope.always rfl
  | readPast marker shown => exact (further.readPast marker shown).always rfl
  | expectLineBreak cause => exact (further.expectLineBreak cause).always rfl
  | block marker? => exact (hBlock marker?).always rfl
  | wholeDocument => exact (further.wholeDocument hBlock).always rfl
  | definitionBody indent => exact (further.definitionBody indent).always rfl
  | runBuiltin builtin invocation => exact (further.runBuiltin env hBlock builtin invocation).always rfl
  | invoke user invocation => exact (further.invoke env hBlock fuel user invocation).always rfl
  | includeLibrary name => exact (further.includeLibrary env hBlock name).always rfl
  | toFixpoint text => exact (further.toFixpoint hBlock fuel text).always rfl

theorem further_performAll (env : Env) (fuel : Nat) (operations : List Operation) (s : ExpandState) :
    Further s (performAll env fuel operations s) := by
  induction operations generalizing s with
  | nil => exact .refl s
  | cons operation operations ih => exact (operation.further_after env fuel s).trans (ih _)

def atStart (text : String) (s : ExpandState) : ExpandState :=
  s.update fun document => { document with reader := .ofText text }

end Expand

end MacroMarkup
