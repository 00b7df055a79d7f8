import MacroMarkup.Proofs.Fixpoint.Engine
import MacroMarkup.Proofs.Passes.Handlers

/-! Two rounds over generated text side by side: one in which nothing fires, and the next
one, which reads what the first comes to. This is about the scopes that invocations read. -/
namespace MacroMarkup

/-- A macro that does not keep a text from being read again as it was left: it is neither
an environment of a later pass, whose end moves, nor a command in the place of the builtin
that opens environments. -/
structure UserMacro.Repeatable (user : UserMacro) : Prop where
  notBegin : user.kind = .command → user.name.toList ≠ "begin".toList
  environment : user.kind = .environment → user.signature.mode = .normalize

def Registry.Repeatable (registry : Registry) : Prop :=
  ∀ key user, registry.bound key = some (.user user) → user.Repeatable

/-- Tame registries are repeatable. -/
theorem Registry.Tame.repeatable {registry : Registry} (h : registry.Tame) : registry.Repeatable :=
  fun key user hBound => ⟨(h key user hBound).notBegin, (h key user hBound).environment⟩

/-- What an extension can repeat could be repeated before. -/
theorem Registry.Extends.repeatable {registry registry' : Registry}
    (h : registry.Extends registry') (hRepeatable : registry'.Repeatable) :
    registry.Repeatable := by
  intro key user hBound
  obtain ⟨bodies, hLater⟩ := h key user hBound
  obtain ⟨hBegin, hEnvironment⟩ := hRepeatable key _ hLater
  exact ⟨hBegin, hEnvironment⟩

namespace Expand

/-- A state of the round in which nothing fires. -/
structure InRound (s : ExpandState) : Prop where
  built : s.session.registry.Built
  repeatable : s.session.registry.Repeatable
  target : s.document.target = .normalize
  muted : s.engine.Muted

/-- What that round leaves as it was. -/
structure Quiet (s s' : ExpandState) : Prop where
  session : s'.session = s.session
  depth : s'.document.depth = s.document.depth
  target : s'.document.target = s.document.target
  muted : s'.engine.Muted

/-- A state of the next round with the given engine, in which nothing has fired either. -/
structure Retraces (engine : AutoBreak) (s m : ExpandState) : Prop
    extends Counterpart engine s m where
  executed : m.document.executed = s.document.executed

variable {env : Env} {fuel : Nat} {user : UserMacro} {s s' s'' m m' : ExpandState}

theorem Quiet.refl (h : s.engine.Muted) : Quiet s s :=
  ⟨rfl, rfl, rfl, h⟩

theorem Quiet.trans (h : Quiet s s') (h' : Quiet s' s'') : Quiet s s'' where
  session := h'.session.trans h.session
  depth := h'.depth.trans h.depth
  target := h'.target.trans h.target
  muted := h'.muted

theorem InRound.later (h : InRound s) (hQuiet : Quiet s s') : InRound s' := by
  obtain ⟨hBuilt, hRepeatable, hTarget, -⟩ := h
  refine ⟨?_, ?_, hQuiet.target.trans hTarget, hQuiet.muted⟩ <;> rw [hQuiet.session] <;> assumption

/-- Where nothing has fired in the end, nothing has fired on the way. -/
theorem Fires.between (h : Fires s s') (h' : Fires s' s'')
    (hStill : s''.document.executed = s.document.executed) :
    s'.document.executed = s.document.executed ∧ s''.document.executed = s'.document.executed := by
  unfold Fires at h h'
  omega

/-- A block is read again where its output stands, and starts there with no more of a word
than before. -/
structure Repeated (env : Env) (s : ExpandState) (out : String) (s' : ExpandState) : Prop where
  word : s.engine.opened = true → Text.word out.toList <+: s.ahead
  again : ∀ {m : ExpandState} {tail : List Char}, Retraces s.engine.clearPending s m →
    m.rest = out.toList ++ tail → Text.word tail = [] →
      ∃ m', Reads env m out m' ∧ Retraces s'.engine.clearPending s' m' ∧ m'.rest = tail

def BlocksRepeated (env : Env) (fuel : Nat) : Prop :=
  ∀ {marker? : Option (List Char)} {s s' : ExpandState} {out : String},
    marker? = none ∨ marker? = some ['\x7d'] → InRound s →
    outcome (blockReader env fuel marker?) s = (.ok out, s') →
    s'.document.executed = s.document.executed → Quiet s s' ∧ Repeated env s out s'

/-- A part of an invocation is read again where `text` stands. -/
def ReadAgain {α : Type} (action : Nat → Expand α) (s : ExpandState) (a : α) (s' : ExpandState)
    (text : List Char) : Prop :=
  ∀ (m : ExpandState) (tail : List Char), Retraces s.engine.clearPending s m →
    m.rest = text ++ tail → ∃ fuel m', outcome (action fuel) m = (.ok a, m') ∧
      Retraces s'.engine.clearPending s' m' ∧ m'.rest = tail

/-- A verbatim scope is written as it is, and read again. -/
theorem verbatimScope_again (hs : InRound s) {value : String}
    (h : outcome verbatimScope s = (.ok value, s')) :
    Quiet s s' ∧ ReadAgain (fun _ => verbatimScope) s value s' (Spelling.braced value).toList := by
  obtain ⟨after, hRest, hContent, rfl⟩ := verbatimScope_ok h
  refine ⟨⟨rfl, rfl, rfl, hs.muted⟩, fun m tail hStep hText => ?_⟩
  rw [toList_braced, List.cons_append, List.append_assoc] at hText
  have hAgain := outcome_verbatimScope hText hContent
  rw [String.ofList_toList] at hAgain
  refine ⟨0, _, hAgain, ⟨⟨hStep.session, hStep.depth, hStep.target, hStep.engine⟩, hStep.executed⟩, ?_⟩
  rw [m.rest_advance, hText]
  simp

/-- A parsed scope is written with its expanded contents, which are read again. -/
theorem parsedScope_again (hBlocks : BlocksRepeated env fuel) (hs : InRound s) {value : String}
    (h : outcome (parsedScope env (blockReader env fuel)) s = (.ok value, s'))
    (hStill : s'.document.executed = s.document.executed) :
    Quiet s s' ∧ ReadAgain (fun fuel => parsedScope env (blockReader env fuel)) s value s'
      (Spelling.braced value).toList := by
  obtain ⟨hDepth, text, middle, -, hBlock, rfl⟩ := parsedScope_ok h
  have hEntered : InRound (s.entered 1) := ⟨hs.built, hs.repeatable, hs.target, hs.muted⟩
  obtain ⟨hQuiet, hRepeated⟩ := hBlocks (.inr rfl) hEntered hBlock hStill
  have hLevel : middle.document.depth - 1 = s.document.depth := by
    rw [hQuiet.depth]
    rfl
  refine ⟨⟨hQuiet.session, hLevel, hQuiet.target, hQuiet.muted⟩, fun m tail hStep hText => ?_⟩
  rw [toList_braced, List.cons_append, List.append_assoc] at hText
  have hInner : (m.entered 1).rest = value.toList ++ '\x7d' :: tail :=
    ExpandState.rest_advance_one hText
  have hStart : Retraces (s.entered 1).engine.clearPending (s.entered 1) (m.entered 1) :=
    ⟨⟨hStep.session, congrArg (· + 1) hStep.depth, hStep.target, hStep.engine⟩, hStep.executed⟩
  obtain ⟨m', hReads, hLast, hTail⟩ :=
    hRepeated.again hStart hInner (Text.word_cons_of_not rfl tail)
  obtain ⟨fuel', hAgain⟩ := hReads.scope hText (by rw [hStep.depth]; exact hDepth) hTail
  exact ⟨fuel', _, hAgain, ⟨⟨hLast.session, congrArg (· - 1) hLast.depth, hLast.target, hLast.engine⟩,
    hLast.executed⟩, ExpandState.rest_advance_one hTail⟩

theorem argument_again (hBlocks : BlocksRepeated env fuel) (hs : InRound s) {flag : Bool}
    {value : String} (h : outcome (argument env (blockReader env fuel) flag) s = (.ok value, s'))
    (hStill : s'.document.executed = s.document.executed) :
    Quiet s s' ∧ ReadAgain (fun fuel => argument env (blockReader env fuel) flag) s value s'
      (Spelling.braced value).toList := by
  cases flag with
  | true => exact verbatimScope_again hs h
  | false => exact parsedScope_again hBlocks hs h hStill

theorem arguments_again (hBlocks : BlocksRepeated env fuel) (hs : InRound s) {flags : List Bool}
    {values : List String}
    (h : outcome (flags.mapM (argument env (blockReader env fuel))) s = (.ok values, s'))
    (hStill : s'.document.executed = s.document.executed) :
    Quiet s s' ∧ ReadAgain (fun fuel => flags.mapM (argument env (blockReader env fuel))) s values s'
      (String.join (values.map Spelling.braced)).toList := by
  induction flags generalizing s values with
  | nil =>
      cases h
      exact ⟨.refl hs.muted, fun m tail hStep hText => ⟨0, m, rfl, hStep, hText⟩⟩
  | cons flag flags ih =>
      rw [List.mapM_cons] at h
      obtain ⟨value, middle, hFirst, hRest⟩ := outcome_bind_ok h
      obtain ⟨others, last, hOthers, hPure⟩ := outcome_bind_ok hRest
      cases hPure
      have hLaw := fires.argument env (fires.block env fuel · "")
      obtain ⟨hStill₁, hStill₂⟩ := Fires.between ((hLaw flag).ok hFirst)
        ((fires.mapM hLaw flags).ok hOthers) hStill
      obtain ⟨hQuiet, hAgain⟩ := argument_again hBlocks hs hFirst hStill₁
      obtain ⟨hQuiet', hAgain'⟩ := ih (hs.later hQuiet) hOthers hStill₂
      refine ⟨hQuiet.trans hQuiet', fun m tail hStep hText => ?_⟩
      rw [List.map_cons, String.join_cons, String.toList_append, List.append_assoc] at hText
      obtain ⟨fuel₁, middle', hValue, hMiddle, hText'⟩ := hAgain m _ hStep hText
      obtain ⟨fuel₂, m', hValues, hLast, hTail⟩ := hAgain' middle' tail hMiddle hText'
      exact ⟨max fuel₁ fuel₂, m', mapM_argument_cons hValue hValues, hLast, hTail⟩

/-- What a command reads behind its spelling is written there again: its scopes, or an
empty one that it may have lacked. -/
theorem callArgs_repeated (hBlocks : BlocksRepeated env fuel) (hs : InRound s)
    (hKind : user.kind = .command) {indent : Nat} {args : CallArgs × Bool}
    (h : outcome (callArgs env (blockReader env fuel) user indent) s = (.ok args, s'))
    (hStill : s'.document.executed = s.document.executed) (invocation : String) :
    Quiet s s' ∧ ∃ text, text.head? = some '\x7b' ∧
      (user.reemit invocation args.1 args.2).toList = invocation.toList ++ text ∧
      ∃ others, user.reemit invocation others.1 others.2 = user.reemit invocation args.1 args.2 ∧
        ∀ indent, ReadAgain (fun fuel => callArgs env (blockReader env fuel) user indent) s others s'
          text := by
  rcases callArgs_command_ok hKind h with ⟨hNone, hArgs, hEmpty⟩ | ⟨hSome, scopes, hScopes, rfl, hRead⟩
  · obtain ⟨args, empty⟩ := args
    obtain rfl : args = ⟨[], none⟩ := hArgs
    rw [outcome_emptyScope] at hEmpty
    have hQuiet : Quiet s s' := by
      split at hEmpty <;> cases hEmpty <;> exact ⟨rfl, rfl, rfl, hs.muted⟩
    refine ⟨hQuiet, ['\x7b', '\x7d'], rfl, ?_, (⟨[], none⟩, true), ?_, fun indent m tail hStep hText => ?_⟩
    · rw [reemit_bare hKind, String.toList_append]
      rfl
    · rw [reemit_bare hKind, reemit_bare hKind]
    · refine ⟨0, _, outcome_callArgs_bare hNone (outcome_emptyScope_braces hText) indent, ?_, ?_⟩
      · split at hEmpty <;> cases hEmpty <;>
          exact ⟨⟨hStep.session, hStep.depth, hStep.target, hStep.engine⟩, hStep.executed⟩
      · rw [m.rest_advance, hText]
        rfl
  · obtain ⟨hQuiet, hAgain⟩ := arguments_again hBlocks hs hRead hStill
    refine ⟨hQuiet, (String.join (scopes.map Spelling.braced)).toList, ?_, ?_, (⟨scopes, none⟩, false), rfl,
      fun indent m tail hStep hText => ?_⟩
    · obtain ⟨first, more, rfl⟩ := List.exists_cons_of_ne_nil hScopes
      rw [List.map_cons, String.join_cons, String.toList_append, toList_braced]
      rfl
    · rw [reemit_scopes hScopes, String.toList_append]
    · obtain ⟨fuel', m', hOthers, hLast, hTail⟩ := hAgain m tail hStep hText
      exact ⟨fuel', m', outcome_callArgs_scopes hKind hSome hOthers indent, hLast, hTail⟩

end Expand

end MacroMarkup
