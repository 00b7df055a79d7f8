import MacroMarkup.Proofs.AutoBreak
import MacroMarkup.Proofs.Registry.Bodies

/-! What no expansion undoes: the text is read from left to right, a document
keeps its names, its target and its markers, macros stay defined, and on success
every level that was entered is left again. -/
namespace MacroMarkup

namespace Expand

/-- A later state in the reading of the same document. -/
structure Onward (s s' : ExpandState) : Prop where
  rest : s'.rest <:+ s.rest
  file : s'.document.file = s.document.file
  path : s'.document.path = s.document.path
  target : s'.document.target = s.document.target
  enabled : s'.engine.enabled = s.engine.enabled
  beginMarker : s'.engine.beginMarker = s.engine.beginMarker
  endMarker : s'.engine.endMarker = s.engine.endMarker

/-- Everything reads onward, failures included. -/
theorem onward : Law Onward Onward where
  refl s := ⟨List.suffix_refl _, rfl, rfl, rfl, rfl, rfl, rfl⟩
  trans h h' := ⟨h'.rest.trans h.rest, h'.file.trans h.file, h'.path.trans h.path,
    h'.target.trans h.target, h'.enabled.trans h.enabled, h'.beginMarker.trans h.beginMarker,
    h'.endMarker.trans h.endMarker⟩
  failing _ _ _ h := h
  exhausted h := h
  refused _ _ h := h
  following _ _ _ _ h h' := ⟨h'.rest.trans h.rest, h'.file.trans h.file, h'.path.trans h.path,
    h'.target.trans h.target, h'.enabled.trans h.enabled, h'.beginMarker.trans h.beginMarker,
    h'.endMarker.trans h.endMarker⟩
  reading s count := by
    refine ⟨?_, rfl, rfl, rfl, rfl, rfl, rfl⟩
    rw [s.rest_advance]
    exact List.drop_suffix _ _
  moving _ _ h := ⟨List.suffix_refl _, rfl, rfl, rfl, h.kept.1, h.kept.2.1, h.kept.2.2⟩
  suspending _ _ h := ⟨h.rest, h.file, h.path, h.target, rfl, h.beginMarker, h.endMarker⟩
  suspendingFailed _ _ _ h := ⟨h.rest, h.file, h.path, h.target, rfl, h.beginMarker, h.endMarker⟩
  scoping _ _ h := ⟨h.rest, h.file, h.path, h.target, h.enabled, h.beginMarker, h.endMarker⟩
  scopingFailed _ _ _ h := ⟨h.rest, h.file, h.path, h.target, h.enabled, h.beginMarker, h.endMarker⟩
  counting _ _ := ⟨List.suffix_refl _, rfl, rfl, rfl, rfl, rfl, rfl⟩
  defining _ _ _ _ _ _ _ _ := ⟨List.suffix_refl _, rfl, rfl, rfl, rfl, rfl, rfl⟩
  loading _ _ := ⟨List.suffix_refl _, rfl, rfl, rfl, rfl, rfl, rfl⟩
  nesting _ _ _ _ _ := ⟨List.suffix_refl _, rfl, rfl, rfl, rfl, rfl, rfl⟩
  includingFailed _ _ _ _ _ _ _ := ⟨List.suffix_refl _, rfl, rfl, rfl, rfl, rfl, rfl⟩
  generatingFailed _ _ _ _ _ := ⟨List.suffix_refl _, rfl, rfl, rfl, rfl, rfl, rfl⟩

/-- A later state whose registry comes from the earlier one by definitions. -/
def Grown (s s' : ExpandState) : Prop :=
  s.session.registry.Built →
    s'.session.registry.Built ∧ s.session.registry.Extends s'.session.registry

theorem Grown.trans {s₁ s₂ s₃ : ExpandState} (h : Grown s₁ s₂) (h' : Grown s₂ s₃) :
    Grown s₁ s₃ := by
  intro hBuilt
  obtain ⟨hMiddle, hFirst⟩ := h hBuilt
  obtain ⟨hLast, hSecond⟩ := h' hMiddle
  exact ⟨hLast, hFirst.trans hSecond⟩

theorem Grown.same {s s' : ExpandState} (h : s'.session.registry = s.session.registry) :
    Grown s s' := by
  intro hBuilt
  rw [h]
  exact ⟨hBuilt, .refl _⟩

/-- Registries only grow, by definitions that were read. -/
theorem grown : Law Grown Grown where
  refl _ := .same rfl
  trans := Grown.trans
  failing _ _ _ h := h
  exhausted h := h
  refused _ _ h := h
  following _ _ _ _ := Grown.trans
  reading _ _ := .same rfl
  moving _ _ _ := .same rfl
  suspending _ _ h := h
  suspendingFailed _ _ _ h := h
  scoping _ _ h := h
  scopingFailed _ _ _ h := h
  counting _ _ := .same rfl
  defining _ _ _ _ _ _ hParse hDefine hBuilt :=
    ⟨hBuilt.define hParse hDefine, hBuilt.define_extends hDefine⟩
  loading _ _ := .same rfl
  nesting _ _ _ _ h := h
  includingFailed _ _ _ _ _ _ h := h
  generatingFailed _ _ _ _ h := h

/-- Both at once: later, and with macros added. -/
def Calm (s s' : ExpandState) : Prop :=
  Onward s s' ∧ Grown s s'

/-- All together: registries grow, reading goes onward, and the target stays. -/
theorem calm : Law Calm Calm :=
  onward.and grown

/-- What holds of the paragraph engine holds of it later on. -/
def KeepsEngine (p : AutoBreak → Prop) (s s' : ExpandState) : Prop :=
  p s.engine → p s'.engine

/-- What every operation of the engine keeps, suspended or not, every expansion keeps. -/
theorem keepsEngine {p : AutoBreak → Prop}
    (hMove : ∀ {engine engine'}, AutoBreak.Move engine engine' → p engine → p engine')
    (hEnabled : ∀ {engine} enabled, p engine → p (engine.restore enabled)) :
    Law (KeepsEngine p) (KeepsEngine p) where
  refl _ h := h
  trans h h' hEngine := h' (h hEngine)
  failing _ _ _ h := h
  exhausted h := h
  refused _ _ h := h
  following _ _ _ _ h h' hEngine := h' (h hEngine)
  reading _ _ h := h
  moving _ _ hMoves h := hMove hMoves h
  suspending s _ h hEngine := hEnabled s.engine.enabled (h (hEnabled false hEngine))
  suspendingFailed _ s _ h hEngine := hEnabled s.engine.enabled (h (hEnabled false hEngine))
  scoping _ _ h := h
  scopingFailed _ _ _ h := h
  counting _ _ h := h
  defining _ _ _ _ _ _ _ _ h := h
  loading _ _ h := h
  nesting _ _ _ _ _ h := h
  includingFailed _ _ _ _ _ _ _ h := h
  generatingFailed _ _ _ _ _ h := h

/-- Pending line breaks count as a space as well, whatever is read. -/
theorem keepsCounted : Law (KeepsEngine AutoBreak.Counted) (KeepsEngine AutoBreak.Counted) :=
  keepsEngine (fun hMove => hMove.counted) fun _ h => h

/-- An end marker is owed only in a paragraph, whatever is read. -/
theorem keepsOwing : Law (KeepsEngine AutoBreak.Owing) (KeepsEngine AutoBreak.Owing) :=
  keepsEngine (fun hMove => hMove.owing) fun _ h => h

/-- On success an expansion ends on the level it started on. -/
def Level (s s' : ExpandState) : Prop :=
  s'.document.depth = s.document.depth

/-- What succeeds comes back to the level that it started on. -/
theorem level : Law Level fun _ _ => True where
  refl _ := rfl
  trans h h' := h'.trans h
  failing _ _ _ _ := trivial
  exhausted _ := trivial
  refused _ _ _ := trivial
  following _ _ _ _ _ _ := trivial
  reading _ _ := rfl
  moving _ _ _ := rfl
  suspending _ _ h := h
  suspendingFailed _ _ _ _ := trivial
  scoping s s' h := by
    change s'.document.depth - 1 = s.document.depth
    have hDeeper : s'.document.depth = s.document.depth + 1 := h
    rw [hDeeper]
    rfl
  scopingFailed _ _ _ _ := trivial
  counting _ _ := rfl
  defining _ _ _ _ _ _ _ _ := rfl
  loading _ _ := rfl
  nesting _ _ _ _ _ := rfl
  includingFailed _ _ _ _ _ _ _ := trivial
  generatingFailed _ _ _ _ _ := trivial

/-- The invocations that fired are counted up. -/
def Fires (s s' : ExpandState) : Prop :=
  s.document.executed ≤ s'.document.executed

/-- What succeeds counts at least as many firings as before. -/
theorem fires : Law Fires fun _ _ => True where
  refl _ := Nat.le_refl _
  trans h h' := Nat.le_trans h h'
  failing _ _ _ _ := trivial
  exhausted _ := trivial
  refused _ _ _ := trivial
  following _ _ _ _ _ _ := trivial
  reading _ _ := Nat.le_refl _
  moving _ _ _ := Nat.le_refl _
  suspending _ _ h := h
  suspendingFailed _ _ _ _ := trivial
  scoping _ _ h := h
  scopingFailed _ _ _ _ := trivial
  counting _ count := Nat.le_add_right _ count
  defining _ _ _ _ _ _ _ _ := Nat.le_refl _
  loading _ _ := Nat.le_refl _
  nesting _ _ _ _ _ := Nat.le_refl _
  includingFailed _ _ _ _ _ _ _ := trivial
  generatingFailed _ _ _ _ _ := trivial

/-- The command line's defaults, without files and without scripts. -/
def plainEnv : Env :=
  { options := {}, evaluator := Evaluator.standard none, files := FileTree.empty [] }

/-- A state of the normalizing pass behind a text that defines macros. -/
def behind (definitions : String) : ExpandState :=
  { session := (outcome (expandDocument plainEnv 200)
      { session := Session.ofRegistry Registry.builtins
        document := DocumentState.start "<string>" "" definitions .normalize }).2.session
    document := DocumentState.start "<string>" "" "" .normalize }

/-- Behind a text the registry is built from its definitions. -/
theorem built_behind (definitions : String) : (behind definitions).session.registry.Built :=
  ((grown.expandDocument plainEnv 200).always rfl .builtins).1

end Expand

end MacroMarkup
