import MacroMarkup.Proofs.Cause
import MacroMarkup.Proofs.Expand.Steps

/-! Comparison of two runs that differ in their fuel or in what they are given. The second
does what the first does, up to exceptions that are stated once; what the first run does to
its session and which causes its errors have is followed along with it. -/
namespace MacroMarkup

namespace Expand

/-- What is followed of the first of two runs, and the exceptions: failures and sessions of
it after which nothing is said of the second run. -/
structure Comparison where
  start : Session
  later : Session → Session → Prop
  raised : ErrorCause → Prop
  excepted : Failure → Prop
  beyond : Session → Prop
  refl (σ : Session) : later σ σ
  trans {σ₁ σ₂ σ₃ : Session} : later σ₁ σ₂ → later σ₂ σ₃ → later σ₁ σ₃
  defining {σ : Session} {kind : MacroKind} {text : List Char} {declaration : Declaration}
    {code : String} {registry : Registry} : Declaration.parse kind text = .ok declaration →
    σ.registry.define (declaration.define kind code) = .ok registry → later σ { σ with registry }
  loading {σ : Session} {location : List String} : location ∉ σ.loaded →
    later σ { σ with loaded := location :: σ.loaded }
  native {cause : ErrorCause} : cause.Native → raised cause
  relocated (current : DocumentState) {failure : Failure} : excepted failure →
    excepted (relocate current failure)
  lasting {σ σ' : Session} : beyond σ → later σ σ' → beyond σ'

namespace Comparison

variable (x : Comparison)

/-- States that the first run may come to. -/
def Admits (s : ExpandState) : Prop :=
  x.later x.start s.session

/-- The macro was met at a place on the way to this session. -/
def Knows (σ : Session) (user : UserMacro) : Prop :=
  ∃ earlier text length, x.later x.start earlier ∧ x.later earlier σ ∧
    earlier.registry.lookup? text = some (length, .user user)

/-- An ending that leaves the second run open. -/
def Excepts {α : Type} (ending : Except Failure α × ExpandState) : Prop :=
  (∃ failure, ending.1 = .error failure ∧ x.excepted failure) ∨ x.beyond ending.2.session

/-- As much fuel, or more where running out of it is excepted. -/
def Fuel (fuel fuel' : Nat) : Prop :=
  fuel ≤ fuel' ∧ (fuel = fuel' ∨ x.excepted .outOfFuel)

end Comparison

variable {α β : Type} {x : Comparison} {s : ExpandState} {fuel fuel' rounds rounds' : Nat}

theorem Comparison.Fuel.refl (fuel : Nat) : x.Fuel fuel fuel :=
  ⟨Nat.le_refl fuel, .inl rfl⟩

/-- One unit of fuel less on each side. -/
theorem Comparison.Fuel.pred (h : x.Fuel (fuel + 1) (fuel' + 1)) : x.Fuel fuel fuel' :=
  ⟨Nat.le_of_succ_le_succ h.1, h.2.imp_left Nat.succ.inj⟩

/-- What is known of a macro stays known. -/
theorem Comparison.Knows.later {σ σ' : Session} {user : UserMacro} (h : x.Knows σ user)
    (hLater : x.later σ σ') : x.Knows σ' user := by
  obtain ⟨earlier, text, length, hStart, hEarlier, hFound⟩ := h
  exact ⟨earlier, text, length, hStart, x.trans hEarlier hLater, hFound⟩

/-- From one state, the first computation does what is followed, and the second does the same
unless an exception is met. -/
structure AgreesAt (x : Comparison) (s : ExpandState) (action action' : Expand α) : Prop where
  later : x.later s.session (outcome action s).2.session
  raised : ∀ error, (outcome action s).1 = .error (.error error) → x.raised error.cause
  same : x.Excepts (outcome action s) ∨ outcome action' s = outcome action s

/-- The same from every state that the first run may come to. -/
def Agrees (x : Comparison) (action action' : Expand α) : Prop :=
  ∀ s, x.Admits s → AgreesAt x s action action'

def BlocksAgree (x : Comparison) (block block' : BlockReader) : Prop :=
  ∀ marker?, Agrees x (block marker?) (block' marker?)

namespace AgreesAt

/-- Behind an exception the second computation may be any other. -/
theorem ofBeyond {action action' action'' : Expand α} (h : AgreesAt x s action action'')
    (hBeyond : x.beyond s.session) : AgreesAt x s action action' :=
  ⟨h.later, h.raised, .inl (.inr (x.lasting hBeyond h.later))⟩

/-- Both computations are one, and it is known how it ends. -/
theorem ended {action : Expand α} {result : Except Failure α} {s' : ExpandState}
    (hOutcome : outcome action s = (result, s')) (hLater : x.later s.session s'.session)
    (hRaised : ∀ error, result = .error (.error error) → x.raised error.cause) :
    AgreesAt x s action action := by
  refine ⟨?_, ?_, .inr rfl⟩
  · rw [hOutcome]
    exact hLater
  · rw [hOutcome]
    exact hRaised

/-- A computation that succeeds agrees with itself. -/
theorem succeeded {action : Expand α} {a : α} {s' : ExpandState}
    (hOutcome : outcome action s = (.ok a, s')) (hLater : x.later s.session s'.session) :
    AgreesAt x s action action :=
  ended hOutcome hLater fun _ hError => nomatch hError

/-- What follows may depend on how the first part ended. -/
theorem bind {action action' : Expand α} {next next' : α → Expand β}
    (h : AgreesAt x s action action') (hNext : ∀ a middle, outcome action s = (.ok a, middle) →
      x.later s.session middle.session → AgreesAt x middle (next a) (next' a)) :
    AgreesAt x s (action >>= next) (action' >>= next') := by
  obtain ⟨hLater, hRaised, hSame⟩ := h
  generalize hFirst : outcome action s = first at hLater hRaised hSame hNext
  obtain ⟨failure | a, middle⟩ := first
  · have hEnd : outcome (action >>= next) s = (.error failure, middle) :=
      outcome_bind_of_error hFirst
    refine ⟨?_, ?_, ?_⟩
    · rw [hEnd]
      exact hLater
    · rw [hEnd]
      exact fun error hError => hRaised error (congrArg Except.error (Except.error.inj hError))
    · rw [hEnd]
      rcases hSame with (⟨failure', hFailure, hExcepted⟩ | hBeyond) | hSame
      · exact .inl (.inl ⟨failure, rfl, Except.error.inj hFailure ▸ hExcepted⟩)
      · exact .inl (.inr hBeyond)
      · exact .inr (outcome_bind_of_error hSame)
  · obtain ⟨hLater', hRaised', hSame'⟩ := hNext a middle rfl hLater
    have hEnd : outcome (action >>= next) s = outcome (next a) middle := outcome_bind_of_ok hFirst
    refine ⟨?_, ?_, ?_⟩
    · rw [hEnd]
      exact x.trans hLater hLater'
    · rw [hEnd]
      exact hRaised'
    · rw [hEnd]
      rcases hSame with (⟨failure, hFailure, -⟩ | hBeyond) | hSame
      · cases hFailure
      · exact .inl (.inr (x.lasting hBeyond hLater'))
      · rw [outcome_bind_of_ok hSame]
        exact hSame'

theorem suspended {action action' : Expand α} (h : AgreesAt x s.suspend action action') :
    AgreesAt x s (Expand.suspended action) (Expand.suspended action') := by
  obtain ⟨hLater, hRaised, hSame⟩ := h
  refine ⟨?_, ?_, ?_⟩
  · rw [outcome_suspended]
    exact hLater
  · rw [outcome_suspended]
    exact hRaised
  · rw [outcome_suspended, outcome_suspended]
    exact hSame.imp id fun hSame => by rw [hSame]

end AgreesAt

namespace Agrees

theorem bind {action action' : Expand α} {next next' : α → Expand β} (h : Agrees x action action')
    (hNext : ∀ a, Agrees x (next a) (next' a)) : Agrees x (action >>= next) (action' >>= next') :=
  fun s hAdmits => (h s hAdmits).bind fun a middle _ hLater =>
    hNext a middle (x.trans hAdmits hLater)

/-- The other document is read in the same session. -/
theorem onDocument {action action' : Expand α} (h : Agrees x action action') (other : DocumentState) :
    Agrees x (Expand.onDocument other action) (Expand.onDocument other action') := by
  intro s hAdmits
  obtain ⟨hLater, hRaised, hSame⟩ := h (s.withDocument other) hAdmits
  refine ⟨?_, ?_, ?_⟩ <;> rw [outcome_onDocument] <;>
    generalize outcome action (s.withDocument other) = result at hLater hRaised hSame <;>
    obtain ⟨failure | a, s'⟩ := result
  · exact hLater
  · exact hLater
  · exact fun error hError => hRaised error (congrArg Except.error (Except.error.inj hError))
  · exact fun error hError => nomatch hError
  · rw [outcome_onDocument]
    exact hSame.imp (fun h => h.imp_left fun ⟨failure', hFailure, hExcepted⟩ =>
      ⟨failure, rfl, Except.error.inj hFailure ▸ hExcepted⟩) fun hSame => by rw [hSame]
  · rw [outcome_onDocument]
    exact hSame.imp (fun h => h.imp_left fun ⟨_, hFailure, _⟩ => nomatch hFailure)
      fun hSame => by rw [hSame]

/-- A computation that succeeds and leaves the session as it is. -/
theorem quiet {action : Expand α}
    (h : ∀ s, ∃ a s', outcome action s = (.ok a, s') ∧ s'.session = s.session) :
    Agrees x action action := by
  intro s _
  obtain ⟨a, s', hOutcome, hSession⟩ := h s
  exact .succeeded hOutcome (hSession ▸ x.refl s.session)

theorem pure (a : α) : Agrees x (Pure.pure a : Expand α) (Pure.pure a) :=
  quiet fun s => ⟨a, s, rfl, rfl⟩

theorem document : Agrees x Expand.document Expand.document :=
  quiet fun s => ⟨s.document, s, rfl, rfl⟩

theorem rest : Agrees x Expand.rest Expand.rest :=
  quiet fun s => ⟨s.rest, s, rfl, rfl⟩

theorem modifyDocument (change : DocumentState → DocumentState) :
    Agrees x (Expand.modifyDocument change) (Expand.modifyDocument change) :=
  quiet fun s => ⟨(), s.update change, rfl, rfl⟩

theorem withAutoBreak (operation : AutoBreak → α × AutoBreak) :
    Agrees x (Expand.withAutoBreak operation) (Expand.withAutoBreak operation) :=
  quiet fun s => ⟨_, _, outcome_withAutoBreak operation s, rfl⟩

/-- An error of the text is followed on both sides. -/
theorem fail {cause : ErrorCause} (hNative : cause.Native) :
    Agrees x (Expand.fail cause : Expand α) (Expand.fail cause) := by
  intro s _
  refine .ended (outcome_fail cause s) (x.refl s.session) fun error hError => ?_
  cases hError
  exact x.native hNative

theorem located {result : Except ErrorCause α}
    (hRaised : ∀ cause, result = .error cause → x.raised cause) :
    Agrees x (Expand.located result) (Expand.located result) := by
  intro s _
  cases result with
  | ok a => exact pure a s ‹_›
  | error cause =>
      refine .ended (outcome_fail cause s) (x.refl s.session) fun error hError => ?_
      cases hError
      exact hRaised cause rfl

/-- The first run is out of fuel, and the second is as well unless that is excepted. -/
theorem exhausted {action action' : Expand α} (hFuel : x.Fuel 0 fuel')
    (hFirst : action = throw .outOfFuel) (hSecond : fuel' = 0 → action' = throw .outOfFuel) :
    Agrees x action action' := by
  intro s _
  subst hFirst
  refine ⟨x.refl s.session, fun error hError => ?_, ?_⟩
  · cases hError
  rcases hFuel.2 with hSame | hExcepted
  · rw [hSecond hSame.symm]
    exact .inr rfl
  · exact .inl (.inl ⟨_, rfl, hExcepted⟩)

/-! Reading of scopes. -/

/-- The two read the same text, up to the same marker. -/
theorem readPast (marker shown : String) :
    Agrees x (Expand.readPast marker shown) (Expand.readPast marker shown) := by
  refine rest.bind fun text => ?_
  split
  · exact (modifyDocument _).bind fun _ => pure _
  · exact (modifyDocument _).bind fun _ => fail ⟨nofun, nofun⟩

theorem expectScopeBegin : Agrees x Expand.expectScopeBegin Expand.expectScopeBegin := by
  refine rest.bind fun text => ?_
  split
  · exact modifyDocument _
  · exact fail ⟨nofun, nofun⟩

theorem verbatimScope : Agrees x Expand.verbatimScope Expand.verbatimScope :=
  expectScopeBegin.bind fun _ => readPast _ _

theorem emptyScope : Agrees x Expand.emptyScope Expand.emptyScope := by
  refine rest.bind fun text => ?_
  split
  · exact (modifyDocument _).bind fun _ => pure _
  · exact pure _

/-- Nothing of an environment's body depends on what is exchanged. -/
theorem environmentBody (name : String) (indent : Nat) :
    Agrees x (Expand.environmentBody name indent) (Expand.environmentBody name indent) := by
  refine bind (rest.bind fun text => ?_) fun _ => (readPast _ _).bind fun _ => pure _
  split
  · exact pure _
  · exact fail ⟨nofun, nofun⟩

/-! Definitions. -/

/-- The body of a definition is read alike. -/
theorem definitionBody (indent : Nat) :
    Agrees x (Expand.definitionBody indent) (Expand.definitionBody indent) := by
  refine expectScopeBegin.bind fun _ => rest.bind fun text => ?_
  split
  · refine (readPast _ _).bind fun block => ?_
    dsimp only
    split
    · exact pure _
    · split
      · exact (fail ⟨by nofun, by nofun⟩).bind fun _ => pure _
      · exact pure _
  · refine (readPast _ _).bind fun code => ?_
    dsimp only
    split
    · exact (fail ⟨by nofun, by nofun⟩).bind fun _ => pure _
    · exact pure _

/-- A definition is added to the registry at hand. -/
theorem register {kind : MacroKind} {text : List Char} {declaration : Declaration}
    (hParse : Declaration.parse kind text = .ok declaration) (code : String) :
    let action : Expand Unit := do
      Expand.setRegistry
        (← Expand.located ((← Expand.registry).define (declaration.define kind code)))
    Agrees x action action := by
  intro action s _
  generalize hDefine : s.session.registry.define (declaration.define kind code) = defined
  have hOutcome : outcome action s =
      outcome (Expand.located defined >>= Expand.setRegistry) s := by
    rw [← hDefine]
    exact outcome_bind_of_ok (outcome_registry s)
  cases defined with
  | ok registry => exact .succeeded hOutcome (x.defining hParse hDefine)
  | error cause =>
      refine .ended hOutcome (x.refl s.session) fun error hError => ?_
      cases hError
      exact x.native (Registry.native_define _ _ cause hDefine)

/-- A definition is read and merged alike. -/
theorem define (kind : MacroKind) : Agrees x (Expand.define kind) (Expand.define kind) := by
  refine document.bind fun current => verbatimScope.bind fun signature => ?_
  intro s hAdmits
  have hParsed : Agrees x (Expand.located (Declaration.parse kind signature.toList))
      (Expand.located (Declaration.parse kind signature.toList)) :=
    located fun cause hCause => x.native (Declaration.native_parse kind _ cause hCause)
  refine (hParsed s hAdmits).bind fun declaration middle hFirst hLater => ?_
  have hParse : Declaration.parse kind signature.toList = .ok declaration := by
    rw [outcome_located] at hFirst
    split at hFirst
    · cases hFirst
      assumption
    · cases hFirst
  exact ((definitionBody _).bind fun code => register hParse code) middle
    (x.trans hAdmits hLater)

end Agrees

end Expand

end MacroMarkup
