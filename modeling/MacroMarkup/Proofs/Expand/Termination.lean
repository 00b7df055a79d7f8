import MacroMarkup.Proofs.Expand.Fuel
import MacroMarkup.Proofs.Expand.Reread

/-! Expansion comes to an end, unless it has defined a macro that is not tame.
The levels that are left bound how deep it goes, the text that is left bounds how
long a block is, and generated text is at rest after two rounds. -/
namespace MacroMarkup.Expand

variable {α β : Type}

abbrev Finite (action : Expand α) : Prop :=
  Obeys (fun _ _ => True) (fun failure _ _ => failure ≠ .outOfFuel) action

/-- Neither what only reads text nor what only adds to the session needs fuel. -/
theorem fuelless : ReadingLaw (fun _ _ => True) fun failure _ _ => failure ≠ .outOfFuel where
  refl _ := trivial
  trans _ _ := trivial
  failing _ _ _ _ h := nomatch h
  following _ _ _ _ _ h := h
  reading _ _ := trivial
  defining _ _ _ _ _ _ _ _ := trivial
  loading _ _ := trivial

namespace Finite

theorem withAutoBreak (operation : AutoBreak → α × AutoBreak) :
    Finite (Expand.withAutoBreak operation) :=
  fun _ => trivial

theorem addExecuted (count : Nat) : Finite (Expand.addExecuted count) :=
  fun _ => trivial

/-- A character is read with no fuel. -/
theorem literal (c : Char) : Finite (Expand.literal c) :=
  fun _ => trivial

theorem settleParagraph (policy : BreakPolicy) : Finite (Expand.settleParagraph policy) :=
  fuelless.bind (withAutoBreak _) fun _ => fuelless.bind (withAutoBreak _) fun _ => fuelless.pure _

/-- Builtins that read no blocks. -/
theorem runBuiltin (env : Env) (block : BlockReader) {builtin : Builtin}
    (hPackage : builtin ≠ .usePackage) (hParagraph : builtin ≠ .paragraph) (invocation : String) :
    Finite (Expand.runBuiltin env block builtin invocation) := by
  cases builtin with
  | escape => exact fuelless.fail _
  | escapedChar char =>
      exact fuelless.bind (settleParagraph _) fun _ => fuelless.bind fuelless.document fun _ =>
        fuelless.pure _
  | comment =>
      exact fuelless.bind fuelless.rest fun _ => fuelless.bind (fuelless.advance _) fun _ =>
        fuelless.pure _
  | scopeBegin => exact fuelless.fail _
  | scopeEnd => exact fuelless.fail _
  | usePackage => exact absurd rfl hPackage
  | newCommand => exact fuelless.bind (fuelless.define _) fun _ => fuelless.pure _
  | newEnvironment => exact fuelless.bind (fuelless.define _) fun _ => fuelless.pure _
  | environmentBegin => exact fuelless.bind fuelless.verbatimScope fun _ => fuelless.fail _
  | environmentEnd => exact fuelless.fail _
  | paragraph => exact absurd rfl hParagraph
  | math =>
      refine fuelless.bind (settleParagraph _) fun _ =>
        fuelless.bind (fuelless.readPast _ _) fun _ => fuelless.bind fuelless.document fun _ => ?_
      split <;> exact fuelless.pure _

end Finite

/-- How the reading of another document ends for the document at hand. -/
def backFrom (s : ExpandState) :
    Except Failure α × ExpandState → Except Failure (α × DocumentState) × ExpandState
  | (.ok a, middle) => (.ok (a, middle.document), middle.withDocument s.document)
  | (.error failure, middle) => (.error failure, middle.withDocument s.document)

/-- The same for generated text, of which the firings are counted. -/
def backFromRound (s : ExpandState) :
    Except Failure String × ExpandState → Except Failure (String × Nat) × ExpandState
  | (.ok output, middle) =>
    (.ok (output, middle.document.executed),
      (middle.withDocument s.document).update fun document =>
        { document with executed := document.executed + middle.document.executed })
  | (.error failure, middle) =>
    (.error (relocate s.document failure), middle.withDocument s.document)

/-- With enough fuel the outcome is always the same, and no want of fuel. -/
def Ends (action : Nat → Expand α) (s : ExpandState) : Prop :=
  ∃ bound result, result.1 ≠ .error .outOfFuel ∧
    ∀ fuel, bound ≤ fuel → outcome (action fuel) s = result

/-- With any fuel from some amount on, it has run out, and a macro that is not
tame has been defined by then. -/
def Strays (action : Nat → Expand α) (s : ExpandState) : Prop :=
  ∃ bound, ∀ fuel, bound ≤ fuel → (outcome (action fuel) s).1 = .error .outOfFuel ∧
    ¬ (outcome (action fuel) s).2.session.registry.Tame

def Settles (action : Nat → Expand α) (s : ExpandState) : Prop :=
  Ends action s ∨ Strays action s

namespace Settles

variable {s : ExpandState}

/-- What needs no fuel settles. -/
theorem finite {action : Expand α} (h : Finite action) (s : ExpandState) :
    Settles (fun _ => action) s :=
  .inl ⟨0, outcome action s, fun hFailed => h.error (Prod.ext hFailed rfl) rfl, fun _ _ => rfl⟩

/-- So does what has ended in the same way for every fuel. -/
theorem ended {action : Nat → Expand α} {result : Except Failure α × ExpandState}
    (hEnded : result.1 ≠ .error .outOfFuel) (h : ∀ fuel, outcome (action fuel) s = result) :
    Settles action s :=
  .inl ⟨0, result, hEnded, fun fuel _ => h fuel⟩

/-- A family whose endings do not change settles where one of them ends, and
strays where none does once a macro is not tame. -/
theorem of_below {action : Nat → Expand α}
    (hBelow : ∀ fuel fuel', fuel ≤ fuel' → Below (action fuel) (action fuel'))
    (hGrown : ∀ fuel, Keeps Grown Grown (action fuel)) (hBuilt : s.session.registry.Built)
    (hTame : ¬ s.session.registry.Tame) : Settles action s := by
  by_cases hEnds : ∃ fuel, (outcome (action fuel) s).1 ≠ .error .outOfFuel
  · obtain ⟨bound, hEnded⟩ := hEnds
    exact .inl ⟨bound, outcome (action bound) s, hEnded, fun fuel hFuel =>
      (hBelow bound fuel hFuel).ended rfl hEnded⟩
  · refine .inr ⟨0, fun fuel _ => ⟨not_not.mp fun h => hEnds ⟨fuel, h⟩, fun hLater => hTame ?_⟩⟩
    exact ((hGrown fuel).always rfl hBuilt).2.tame hLater

theorem shift {action : Nat → Expand α} (h : Settles action s) :
    Settles (fun fuel => action (fuel + 1)) s := by
  rcases h with ⟨bound, result, hEnded, hSame⟩ | ⟨bound, hStrays⟩
  · exact .inl ⟨bound, result, hEnded, fun fuel hFuel => hSame (fuel + 1) (by omega)⟩
  · exact .inr ⟨bound, fun fuel hFuel => hStrays (fuel + 1) (by omega)⟩

/-- One more unit of fuel makes no difference in the end. -/
theorem succ {action : Nat → Expand α} (h : Settles (fun fuel => action (fuel + 1)) s) :
    Settles action s := by
  have hShift : ∀ {bound fuel : Nat}, bound + 1 ≤ fuel → ∃ less, fuel = less + 1 ∧ bound ≤ less :=
    fun {bound fuel} hFuel => ⟨fuel - 1, by omega, by omega⟩
  rcases h with ⟨bound, result, hEnded, hSame⟩ | ⟨bound, hStrays⟩
  · refine .inl ⟨bound + 1, result, hEnded, fun fuel hFuel => ?_⟩
    obtain ⟨less, rfl, hLess⟩ := hShift hFuel
    exact hSame less hLess
  · refine .inr ⟨bound + 1, fun fuel hFuel => ?_⟩
    obtain ⟨less, rfl, hLess⟩ := hShift hFuel
    exact hStrays less hLess

theorem bind {action : Nat → Expand α} {next : Nat → α → Expand β} (h : Settles action s)
    (hNext : ∀ a middle, (∃ fuel, outcome (action fuel) s = (.ok a, middle)) →
      Settles (fun fuel => next fuel a) middle) :
    Settles (fun fuel => action fuel >>= next fuel) s := by
  rcases h with ⟨bound, ⟨result, middle⟩, hEnded, hOutcome⟩ | ⟨bound, hOutcome⟩
  · cases result with
    | error failure =>
        refine .inl ⟨bound, (.error failure, middle), ?_, fun fuel hFuel => ?_⟩
        · intro h
          cases h
          exact hEnded rfl
        · rw [outcome_bind, hOutcome fuel hFuel]
    | ok a =>
        rcases hNext a middle ⟨bound, hOutcome bound (Nat.le_refl _)⟩ with
          ⟨bound', result, hEnded', hOutcome'⟩ | ⟨bound', hOutcome'⟩
        · refine .inl ⟨max bound bound', result, hEnded', fun fuel hFuel => ?_⟩
          rw [outcome_bind, hOutcome fuel (by omega)]
          exact hOutcome' fuel (by omega)
        · refine .inr ⟨max bound bound', fun fuel hFuel => ?_⟩
          rw [outcome_bind, hOutcome fuel (by omega)]
          exact hOutcome' fuel (by omega)
  · refine .inr ⟨bound, fun fuel hFuel => ?_⟩
    obtain ⟨hOut, hTame⟩ := hOutcome fuel hFuel
    rw [outcome_bind]
    generalize outcome (action fuel) s = result at hOut hTame ⊢
    obtain ⟨failure | a, middle⟩ := result
    · cases hOut
      exact ⟨rfl, hTame⟩
    · cases hOut

/-- What holds of a computation holds of one that comes to the same, up to a
change of the document in the end. -/
theorem map {action : Nat → Expand α} {action' : Nat → Expand β} {s' : ExpandState}
    (change : Except Failure α × ExpandState → Except Failure β × ExpandState)
    (hOutcome : ∀ fuel, outcome (action' fuel) s' = change (outcome (action fuel) s))
    (hOut : ∀ result, (change result).1 = .error .outOfFuel ↔ result.1 = .error .outOfFuel)
    (hSession : ∀ result, (change result).2.session = result.2.session)
    (h : Settles action s) : Settles action' s' := by
  rcases h with ⟨bound, result, hEnded, hSame⟩ | ⟨bound, hStrays⟩
  · refine .inl ⟨bound, change result, fun h => hEnded ((hOut _).mp h), fun fuel hFuel => ?_⟩
    rw [hOutcome, hSame fuel hFuel]
  · refine .inr ⟨bound, fun fuel hFuel => ?_⟩
    rw [hOutcome, hSession]
    exact ⟨(hOut _).mpr (hStrays fuel hFuel).1, (hStrays fuel hFuel).2⟩

theorem congr {action action' : Nat → Expand α} {s' : ExpandState}
    (hOutcome : ∀ fuel, outcome (action' fuel) s' = outcome (action fuel) s)
    (h : Settles action s) : Settles action' s' :=
  h.map (fun result => result) hOutcome (fun _ => Iff.rfl) fun _ => rfl

theorem suspended {action : Nat → Expand α} (h : Settles action s.suspend) :
    Settles (fun fuel => Expand.suspended (action fuel)) s :=
  h.map (fun result => (result.1, result.2.resume s.engine.enabled))
    (fun fuel => outcome_suspended (action fuel) s) (fun _ => Iff.rfl) fun _ => rfl

theorem onDocument {action : Nat → Expand α} {other : DocumentState}
    (h : Settles action (s.withDocument other)) :
    Settles (fun fuel => Expand.onDocument other (action fuel)) s := by
  refine h.map (backFrom s) (fun fuel => outcome_onDocument other (action fuel) s) ?_ ?_
  · rintro ⟨failure | a, s'⟩ <;> simp [backFrom]
  · rintro ⟨failure | a, s'⟩ <;> rfl

theorem round {read : Nat → BlockReader} {text : String}
    (h : Settles (fun fuel => wholeDocument (read fuel))
      (s.withDocument (s.document.generated text))) :
    Settles (fun fuel => Expand.round (read fuel) text) s := by
  refine h.map (backFromRound s) (fun fuel => outcome_round (read fuel) text s) ?_ ?_
  · rintro ⟨failure | output, middle⟩
    · cases failure with
      | error error =>
          unfold backFromRound relocate
          dsimp only
          split <;> simp
      | outOfFuel => simp [backFromRound, relocate]
    · simp [backFromRound]
  · rintro ⟨failure | output, middle⟩ <;> rfl

end Settles

/-- Later on the same level, with macros added. -/
def Proceeds (s s' : ExpandState) : Prop :=
  Grown s s' ∧ Level s s'

/-- Runs read on, fire and define, and come back to their level. -/
theorem proceeds : Law Proceeds fun s s' => Grown s s' ∧ True :=
  grown.and level

/-- What follows a round: its output, if it fired nothing, or more rounds. -/
def afterRound (block : BlockReader) (rounds : Nat) (result : String × Nat) : Expand String :=
  if result.2 = 0 then return result.1 else toFixpoint block rounds result.1

/-- A family of computations that settles wherever so many levels are entered. -/
structure Settling (depth : Nat) (action : Nat → Expand α) : Prop where
  keeps : ∀ fuel, Keeps Proceeds (fun s s' => Grown s s' ∧ True) (action fuel)
  settles : ∀ s, s.session.registry.Built → depth ≤ s.document.depth → Settles action s

namespace Settling

variable {depth : Nat}

theorem finite {action : Expand α} (hFinite : Finite action)
    (hKeeps : Keeps Proceeds (fun s s' => Grown s s' ∧ True) action) :
    Settling depth fun _ => action :=
  ⟨fun _ => hKeeps, fun s _ _ => .finite hFinite s⟩

/-- What obeys every law for reading settles. -/
theorem reading {action : Expand α} (h : ∀ {R E}, ReadingLaw R E → Obeys R E action) :
    Settling depth fun _ => action :=
  finite (h fuelless) (h proceeds.toReadingLaw)

/-- What settles wherever so many levels are entered settles wherever more are. -/
theorem deeper_of {action : Nat → Expand α} (h : Settling depth action) {depth' : Nat}
    (hLe : depth ≤ depth') : Settling depth' action :=
  ⟨h.keeps, fun s hBuilt hDepth => h.settles s hBuilt (Nat.le_trans hLe hDepth)⟩

theorem bind {action : Nat → Expand α} {next : Nat → α → Expand β} (h : Settling depth action)
    (hNext : ∀ a, Settling depth fun fuel => next fuel a) :
    Settling depth fun fuel => action fuel >>= next fuel := by
  refine ⟨fun fuel => proceeds.bind (h.keeps fuel) fun a => (hNext a).keeps fuel, ?_⟩
  intro s hBuilt hDepth
  refine (h.settles s hBuilt hDepth).bind fun a middle ⟨fuel, hOutcome⟩ => ?_
  obtain ⟨hGrown, hLevel⟩ := (h.keeps fuel).ok hOutcome
  exact (hNext a).settles middle (hGrown hBuilt).1 (hLevel ▸ hDepth)

theorem suspended {action : Nat → Expand α} (h : Settling depth action) :
    Settling depth fun fuel => Expand.suspended (action fuel) :=
  ⟨fun fuel => proceeds.suspended (h.keeps fuel),
    fun s hBuilt hDepth => (h.settles s.suspend hBuilt hDepth).suspended⟩

/-- Beyond the limit nothing has to be known: there the level is not entered. -/
theorem deeper {env : Env} {action : Nat → Expand α} {next : Nat → α → Expand β}
    (hKeeps : ∀ fuel, Keeps Proceeds (fun s s' => Grown s s' ∧ True) (action fuel))
    (h : depth < env.options.maxDepth → Settling (depth + 1) action)
    (hNext : ∀ a, Settling depth fun fuel => next fuel a) :
    Settling depth fun fuel => (do
      descend env
      let a ← action fuel
      ascend
      next fuel a) := by
  refine ⟨fun fuel => proceeds.deeper env (hKeeps fuel) fun a => (hNext a).keeps fuel, ?_⟩
  intro s hBuilt hDepth
  by_cases hLimit : env.options.maxDepth < s.document.depth + 1
  · refine .inl ⟨0, (.error (.error (s.document.error (.recursionLimitExceeded env.options.maxDepth))),
      s.withDepth (s.document.depth + 1)), by simp, fun fuel _ => ?_⟩
    rw [outcome_bind, outcome_descend, if_pos hLimit]
  · have hInner : Settles (fun fuel => action fuel >>= fun a => do
        ascend
        next fuel a) (s.withDepth (s.document.depth + 1)) := by
      have hAction := (h (by omega)).settles (s.withDepth (s.document.depth + 1)) hBuilt
        (Nat.succ_le_succ hDepth)
      refine hAction.bind fun a middle ⟨fuel, hOutcome⟩ => ?_
      obtain ⟨hGrown, hLevel⟩ := (hKeeps fuel).ok hOutcome
      have hBelow : middle.document.depth = s.document.depth + 1 := hLevel
      refine ((hNext a).settles (middle.withDepth (middle.document.depth - 1))
        (hGrown hBuilt).1 ?_).congr fun fuel => outcome_bind_of_ok (outcome_ascend middle)
      change depth ≤ middle.document.depth - 1
      omega
    refine hInner.congr fun fuel => ?_
    rw [outcome_bind, outcome_descend, if_neg hLimit]

variable {env : Env} (hBlock : ∀ marker?, Settling depth fun fuel => blockReader env fuel marker?)
include hBlock

theorem wholeDocument : Settling depth fun fuel => Expand.wholeDocument (blockReader env fuel) :=
  (hBlock none).bind fun _ =>
    finite (fuelless.bind (Finite.withAutoBreak _) fun _ => fuelless.pure _)
      (proceeds.bind (proceeds.withAutoBreak AutoBreak.Move.close) fun _ => proceeds.pure _)

/-- A scope settles if blocks do one level deeper. -/
theorem parsedScope : Settling depth fun fuel => Expand.parsedScope env (blockReader env fuel) :=
  (reading (·.expectScopeBegin)).bind fun _ =>
    deeper (fun fuel => (hBlock _).keeps fuel)
      (fun _ => (hBlock _).deeper_of (Nat.le_succ depth))
      fun _ => reading (·.pure _)

theorem readLibrary (path : String) :
    Settling depth fun fuel => Expand.readLibrary env (blockReader env fuel) path := by
  refine ⟨fun fuel => proceeds.readLibrary env (fun marker? => (hBlock marker?).keeps fuel)
    fun _ => trivial, ?_⟩
  intro s hBuilt hDepth
  unfold Expand.readLibrary
  split
  · exact .finite (fuelless.fail _) s
  · dsimp only
    split
    · exact .ended (by simp) fun _ => outcome_throw _ s
    · refine (Settles.finite fuelless.document s).bind fun current middle ⟨fuel, hOutcome⟩ => ?_
      cases hOutcome
      refine Settles.bind (.onDocument ?_) fun _ last _ => .finite (fuelless.pure _) last
      exact (wholeDocument hBlock).settles _ hBuilt hDepth

/-- A library settles as a document does. -/
theorem includeLibrary (name : String) :
    Settling depth fun fuel => Expand.includeLibrary env (blockReader env fuel) name := by
  refine (reading (·.document)).bind fun current => ?_
  dsimp only
  split
  · exact reading (·.fail _)
  · refine (reading (·.markLoaded _)).bind fun isNew => ?_
    split
    · exact readLibrary hBlock _
    · exact reading (·.pure _)

/-- After one round the text is inert, and the next round fires nothing, unless a
macro that is not tame was defined. -/
theorem toFixpoint_settles {s : ExpandState} (hBuilt : s.session.registry.Built)
    (hDepth : depth ≤ s.document.depth) (hTarget : s.document.target = .normalize) (text : String) :
    Settles (fun fuel => Expand.toFixpoint (blockReader env fuel) fuel text) s := by
  have hRound : ∀ {s : ExpandState}, s.session.registry.Built → depth ≤ s.document.depth → ∀ text,
      Settles (fun fuel => Expand.round (blockReader env fuel) text) s := by
    intro s hBuilt hDepth text
    exact .round ((wholeDocument hBlock).settles _ hBuilt hDepth)
  have hStep : ∀ fuel rounds text, Expand.toFixpoint (blockReader env fuel) (rounds + 1) text =
      Expand.round (blockReader env fuel) text >>= afterRound (blockReader env fuel) rounds :=
    fun _ _ _ => rfl
  refine Settles.succ ?_
  simp only [hStep]
  refine (hRound hBuilt hDepth text).shift.bind fun ⟨output, fired⟩ middle ⟨fuel, hOutcome⟩ => ?_
  have hReader := inertReader env (fuel + 1)
  have hKeeps := (calm.round hReader.calm text).always hOutcome
  have hMiddle := (hKeeps.2 hBuilt).1
  have hTarget' : middle.document.target = .normalize := hKeeps.1.target.trans hTarget
  have hDepth' : depth ≤ middle.document.depth := by
    have hLevel := (proceeds.round (fun marker? => (hBlock marker?).keeps _) text).ok hOutcome
    exact hLevel.2 ▸ hDepth
  unfold afterRound
  dsimp only
  split
  · exact .finite (fuelless.pure _) middle
  · by_cases hTame : middle.session.registry.Tame
    · have hInert := hReader.round hBuilt hTarget hOutcome hTame
      refine Settles.succ ?_
      simp only [hStep]
      refine (hRound hMiddle hDepth' output).shift.shift.bind fun result last ⟨fuel', hAgain⟩ => ?_
      have hIdle := round_idle env _ ⟨hMiddle, hTame⟩ hTarget' hInert hAgain
      unfold afterRound
      simp only [hIdle, if_true]
      exact .finite (fuelless.pure _) last
    · refine .of_below (fun fuel fuel' hLe => ?_) (fun fuel => ?_) hMiddle hTame
      · exact Below.toFixpoint (blockReader_below env (Nat.succ_le_succ hLe)) hLe output
      · exact grown.toFixpoint (fun marker? => grown.block env _ marker? "") fuel output

/-- An evaluation settles if its rounds end. -/
theorem evaluate (user : UserMacro) (values : List String) :
    Settling depth fun fuel => Expand.evaluate env (blockReader env fuel) fuel user values := by
  refine ⟨fun fuel =>
    proceeds.evaluate env (fun marker? => (hBlock marker?).keeps fuel) fuel user values, ?_⟩
  intro s hBuilt hDepth
  unfold Expand.evaluate
  split
  · exact .finite (fuelless.fail _) s
  · rename_i body hBody
    refine (Settles.finite (fuelless.located _) s).bind fun text middle ⟨fuel, hOutcome⟩ => ?_
    obtain ⟨hGrown, hLevel⟩ := (proceeds.located _).ok hOutcome
    refine (Settles.finite fuelless.document middle).bind fun current last ⟨fuel', hCurrent⟩ => ?_
    cases hCurrent
    split
    · rename_i hTarget
      exact toFixpoint_settles hBlock (hGrown hBuilt).1 (hLevel ▸ hDepth) hTarget text
    · exact .finite (fuelless.pure _) _

theorem argument (verbatim : Bool) :
    Settling depth fun fuel => Expand.argument env (blockReader env fuel) verbatim := by
  unfold Expand.argument
  split
  · exact reading (·.verbatimScope)
  · exact parsedScope hBlock

theorem arguments (verbatim : List Bool) :
    Settling depth fun fuel => verbatim.mapM (Expand.argument env (blockReader env fuel)) := by
  induction verbatim with
  | nil => exact reading (·.pure _)
  | cons flag flags ih =>
      simp only [List.mapM_cons]
      exact (argument hBlock flag).bind fun _ => ih.bind fun _ => reading (·.pure _)

/-- The scopes of an invocation settle, one after the other. -/
theorem callArgs (user : UserMacro) (indent : Nat) :
    Settling depth fun fuel => Expand.callArgs env (blockReader env fuel) user indent := by
  unfold Expand.callArgs
  split
  · exact (reading (·.emptyScope)).bind fun _ => reading (·.pure _)
  · refine Settling.bind ?_ fun _ => reading (·.pure _)
    unfold Expand.arguments
    split
    · exact (arguments hBlock _).bind fun _ => reading (·.pure _)
    · exact (arguments hBlock _).bind fun _ =>
        (reading (·.environmentBody _ _)).bind fun _ => reading (·.pure _)

/-- An invocation settles as its arguments and its evaluation do. -/
theorem invoke (user : UserMacro) (invocation : String) :
    Settling depth fun fuel => Expand.invoke env (blockReader env fuel) fuel user invocation := by
  refine (reading (·.document)).bind fun current =>
    (finite (.settleParagraph _) (proceeds.settleParagraph _)).bind fun _ =>
      (callArgs hBlock user _).suspended.bind fun args =>
        (reading (·.document)).bind fun reached => ?_
  split
  · exact (evaluate hBlock user _).bind fun _ => reading (·.pure _)
  · exact reading (·.pure _)

/-- Each builtin needs no fuel, or reads a scope or a library. -/
theorem runBuiltin (builtin : Builtin) (invocation : String) :
    Settling depth fun fuel => Expand.runBuiltin env (blockReader env fuel) builtin invocation := by
  by_cases hPackage : builtin = .usePackage
  · subst hPackage
    exact (reading (·.verbatimScope)).bind fun _ =>
      (includeLibrary hBlock _).bind fun _ => reading (·.pure _)
  · by_cases hParagraph : builtin = .paragraph
    · subst hParagraph
      exact (finite (.withAutoBreak _)
        (proceeds.withAutoBreak (AutoBreak.Move.ensureOpen true))).bind fun _ =>
          (parsedScope hBlock).suspended.bind fun _ => reading (·.pure _)
    · have hSame : (fun fuel => Expand.runBuiltin env (blockReader env fuel) builtin invocation) =
          fun _ => Expand.runBuiltin env (blockReader env 0) builtin invocation := by
        funext fuel
        cases builtin <;> first | exact absurd rfl hPackage | exact absurd rfl hParagraph | rfl
      rw [hSame]
      exact finite (.runBuiltin env _ hPackage hParagraph invocation)
        (proceeds.runBuiltin env (fun marker? => (hBlock marker?).keeps 0) builtin invocation)

theorem runHandler (handler : Handler) (invocation : String) :
    Settling depth fun fuel =>
      Expand.runHandler env (blockReader env fuel) fuel handler invocation := by
  cases handler with
  | user user => exact invoke hBlock user invocation
  | builtin builtin => exact runBuiltin hBlock builtin invocation

omit hBlock

/-- Beyond the limit a dispatch fails at once, and within it the level below settles. -/
theorem dispatch (hDeeper : depth < env.options.maxDepth →
      ∀ marker?, Settling (depth + 1) fun fuel => blockReader env fuel marker?)
    (handler : Handler) (length : Nat) :
    Settling depth fun fuel =>
      Expand.dispatch env (blockReader env fuel) fuel handler length := by
  refine (reading (·.rest)).bind fun text =>
    (reading (·.advance _)).bind fun _ => deeper (fun fuel => ?_)
      (fun hLimit => runHandler (hDeeper hLimit) handler _)
      fun expansion => (finite (.addExecuted _) (proceeds.addExecuted _)).bind fun _ =>
        reading (·.pure _)
  exact proceeds.runHandler env (fun marker? => proceeds.block env fuel marker? "") fuel handler _

/-- The induction is on the length of the text that is left. -/
theorem block (hDeeper : depth < env.options.maxDepth →
      ∀ marker?, Settling (depth + 1) fun fuel => blockReader env fuel marker?)
    (marker? : Option (List Char)) (output : String) :
    Settling depth fun fuel => Expand.block env fuel marker? output := by
  refine ⟨fun fuel => proceeds.block env fuel marker? output, ?_⟩
  intro s hBuilt hDepth
  induction hLength : s.rest.length using Nat.strong_induction_on generalizing s output with
  | _ length ih =>
      refine Settles.succ ?_
      by_cases hRest : s.rest = []
      · cases marker? with
        | none => exact .ended (by simp) fun fuel => outcome_block_atEnd env fuel output hRest
        | some marker =>
            exact .ended (by simp) fun fuel =>
              outcome_block_unterminated env fuel marker output hRest
      · by_cases hMarker : endsAt marker? s.rest
        · obtain ⟨marker, rfl, hPrefix⟩ := hMarker
          exact .ended (by simp) fun fuel => outcome_block_marker env fuel output hRest hPrefix
        · have hPlace : Settles (fun fuel => Expand.place env (blockReader env fuel) fuel) s := by
            cases hText : s.rest with
            | nil => exact absurd hText hRest
            | cons c after =>
                cases hFound : s.session.registry.lookup? (c :: after) with
                | none =>
                    refine (Settles.finite (Finite.literal c) s).congr fun fuel => ?_
                    rw [outcome_place env _ fuel hText, hFound]
                | some found =>
                    refine ((dispatch hDeeper found.2 found.1).settles s hBuilt hDepth).congr
                      fun fuel => ?_
                    rw [outcome_place env _ fuel hText, hFound]
          refine Settles.congr (fun fuel => outcome_block_place env fuel output hRest hMarker)
            (hPlace.bind fun piece middle ⟨fuel, hOutcome⟩ => ?_)
          have hShorter := place_consumes hBuilt.wellFormed hRest hOutcome
          obtain ⟨hGrown, hLevel⟩ :=
            (proceeds.place env (fun marker? => proceeds.block env fuel marker? "") fuel).ok hOutcome
          exact ih _ (hLength ▸ hShorter) _ middle (hGrown hBuilt).1 (hLevel ▸ hDepth) rfl

/-- The induction is on the levels that are left below the limit. -/
theorem blocks (env : Env) (depth : Nat) (marker? : Option (List Char)) :
    Settling depth fun fuel => blockReader env fuel marker? := by
  generalize hLeft : env.options.maxDepth - depth = left
  induction left generalizing depth marker? with
  | zero => exact block (fun hLimit => by omega) marker? ""
  | succ left ih => exact block (fun _ marker? => ih (depth + 1) marker? (by omega)) marker? ""

end Settling

end MacroMarkup.Expand
