import MacroMarkup.Proofs.Expand.Comparison.Run

/-! Fuel bounds how far an expansion goes, and has no other influence: with more
of it, an expansion that has ended ends in the same way. -/
namespace MacroMarkup.Expand

/-- The second computation does what the first does, unless that runs out of
fuel. -/
def Below {α : Type} (action action' : Expand α) : Prop :=
  ∀ s, (outcome action s).1 = .error .outOfFuel ∨ outcome action' s = outcome action s

def BlocksBelow (block block' : BlockReader) : Prop :=
  ∀ marker?, Below (block marker?) (block' marker?)

/-- Two runs that differ in their fuel. Nothing else is followed of the first. -/
def refueling : Comparison where
  start := Session.ofRegistry Registry.empty
  later _ _ := True
  raised _ := True
  excepted failure := failure = .outOfFuel
  beyond _ := False
  refl _ := trivial
  trans _ _ := trivial
  defining _ _ := trivial
  loading _ := trivial
  native _ := trivial
  relocated _ _ h := by rw [h]; rfl
  lasting h _ := h

/-- Runs that differ in their fuel are given the same. -/
theorem refueling_exchange (env : Env) : refueling.Exchange env env :=
  .refl (fun _ => trivial) env

theorem refueling_fuel {fuel fuel' : Nat} (h : fuel ≤ fuel') : refueling.Fuel fuel fuel' :=
  ⟨h, .inr rfl⟩

namespace Below

variable {α β : Type}

theorem refl (action : Expand α) : Below action action :=
  fun _ => .inr rfl

/-- An ending that is known carries over. -/
theorem ended {action action' : Expand α} (h : Below action action') {s s' : ExpandState}
    {result : Except Failure α} (hOutcome : outcome action s = (result, s'))
    (hEnded : result ≠ .error .outOfFuel) : outcome action' s = (result, s') := by
  rcases h s with hOut | hSame
  · rw [hOutcome] at hOut
    exact absurd hOut hEnded
  · exact hSame.trans hOutcome

/-- What succeeds below succeeds above with the same result. -/
theorem ok {action action' : Expand α} (h : Below action action') {s s' : ExpandState} {a : α}
    (hOutcome : outcome action s = (.ok a, s')) : outcome action' s = (.ok a, s') :=
  h.ended hOutcome (by simp)

/-- Being below is one way to agree. -/
theorem iff_agrees {action action' : Expand α} :
    Below action action' ↔ Agrees refueling action action' := by
  constructor
  · intro h s _
    refine ⟨trivial, fun _ _ => trivial, ?_⟩
    exact (h s).imp_left fun hOut => .inl ⟨_, hOut, rfl⟩
  · intro h s
    rcases (h s trivial).same with (⟨failure, hFailed, rfl⟩ | hBeyond) | hSame
    · exact .inl hFailed
    · exact hBeyond.elim
    · exact .inr hSame

theorem bind {action action' : Expand α} {next next' : α → Expand β} (h : Below action action')
    (hNext : ∀ a, Below (next a) (next' a)) : Below (action >>= next) (action' >>= next') :=
  iff_agrees.mpr ((iff_agrees.mp h).bind fun a => iff_agrees.mp (hNext a))

section Blocks

variable {block block' : BlockReader} (hBlock : BlocksBelow block block')
include hBlock

theorem blocksAgree : BlocksAgree refueling block block' :=
  fun marker? => iff_agrees.mp (hBlock marker?)

/-- A document that is read to its end is read so with more fuel. -/
theorem wholeDocument : Below (Expand.wholeDocument block) (Expand.wholeDocument block') :=
  iff_agrees.mpr (.wholeDocument (blocksAgree hBlock))

/-- With more rounds at hand the same fixpoint is reached. -/
theorem toFixpoint {rounds rounds' : Nat} (hRounds : rounds ≤ rounds') (text : String) :
    Below (Expand.toFixpoint block rounds text) (Expand.toFixpoint block' rounds' text) :=
  iff_agrees.mpr (.toFixpoint (blocksAgree hBlock) (refueling_fuel hRounds) text)

theorem argument (env : Env) (verbatim : Bool) :
    Below (Expand.argument env block verbatim) (Expand.argument env block' verbatim) :=
  iff_agrees.mpr (.argument (blocksAgree hBlock) (refueling_exchange env).descending verbatim)

theorem mapM_argument (env : Env) (verbatim : List Bool) :
    Below (verbatim.mapM (Expand.argument env block))
      (verbatim.mapM (Expand.argument env block')) :=
  iff_agrees.mpr (.mapM_argument (blocksAgree hBlock) (refueling_exchange env).descending verbatim)

theorem evaluate (env : Env) {rounds rounds' : Nat} (hRounds : rounds ≤ rounds') (user : UserMacro)
    (values : List String) : Below (Expand.evaluate env block rounds user values)
      (Expand.evaluate env block' rounds' user values) :=
  iff_agrees.mpr (.evaluateAt (blocksAgree hBlock) (refueling_fuel hRounds) fun _ _ => trivial)

theorem place (env : Env) {rounds rounds' : Nat} (hRounds : rounds ≤ rounds') :
    Below (Expand.place env block rounds) (Expand.place env block' rounds') :=
  iff_agrees.mpr (.place (blocksAgree hBlock) (refueling_exchange env) (refueling_fuel hRounds))

end Blocks

/-- Two loops of which the second reads every place as the first does. -/
theorem loop {read read' : BlockReader → Nat → Expand String}
    (hRead : ∀ {block block' rounds rounds'}, BlocksBelow block block' → rounds ≤ rounds' →
      Below (read block rounds) (read' block' rounds'))
    {fuel fuel' : Nat} (hFuel : fuel ≤ fuel') (marker? : Option (List Char)) (output : String) :
    Below (Expand.loop read fuel marker? output) (Expand.loop read' fuel' marker? output) := by
  refine iff_agrees.mpr (.loop (fun hBlock hRounds => ?_) (refueling_fuel hFuel) marker? output)
  exact iff_agrees.mp (hRead (fun marker? => iff_agrees.mpr (hBlock marker?)) hRounds.1)

end Below

/-- More fuel does not change how a block ends. -/
theorem block_below (env : Env) {fuel fuel' : Nat} (hFuel : fuel ≤ fuel')
    (marker? : Option (List Char)) (output : String) :
    Below (block env fuel marker? output) (block env fuel' marker? output) := by
  rw [block_eq_loop]
  exact Below.loop (fun hBlock hRounds => Below.place hBlock env hRounds) hFuel marker? output

/-- More fuel reads at least as much. -/
theorem blockReader_below (env : Env) {fuel fuel' : Nat} (hFuel : fuel ≤ fuel') :
    BlocksBelow (blockReader env fuel) (blockReader env fuel') :=
  fun marker? => block_below env hFuel marker? ""

/-- A document that is expanded is expanded so with any more fuel. -/
theorem expandDocument_below (env : Env) {fuel fuel' : Nat} (hFuel : fuel ≤ fuel') :
    Below (expandDocument env fuel) (expandDocument env fuel') :=
  .wholeDocument (blockReader_below env hFuel)

/-- All fuel that is enough for a document gives the same text. -/
theorem expandDocument_unique {env : Env} {fuel fuel' : Nat} {s last last' : ExpandState}
    {text text' : String} (h : outcome (expandDocument env fuel) s = (.ok text, last))
    (h' : outcome (expandDocument env fuel') s = (.ok text', last')) : text = text' := by
  have hHere := (expandDocument_below env (Nat.le_max_left fuel fuel')).ok h
  cases hHere.symm.trans ((expandDocument_below env (Nat.le_max_right fuel fuel')).ok h')
  rfl

end MacroMarkup.Expand
