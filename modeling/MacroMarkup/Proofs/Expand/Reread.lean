import MacroMarkup.Proofs.Expand.Reread.Token

/-! Inert text is read again token by token, and every handler that is dispatched to
lasts: a pass that evaluates no macro of the normalizing pass comes to the end of the
text with the macros that it started with. -/
namespace MacroMarkup

namespace Expand

/-- What reading inert text leaves as it was. In the normalizing pass nothing fires. -/
structure Idle (s s' : ExpandState) : Prop where
  session : s'.session = s.session
  target : s'.document.target = s.document.target
  executed : s.document.target = .normalize → s'.document.executed = s.document.executed

theorem Idle.refl (s : ExpandState) : Idle s s :=
  ⟨rfl, rfl, fun _ => rfl⟩

theorem Idle.trans {s₁ s₂ s₃ : ExpandState} (h : Idle s₁ s₂) (h' : Idle s₂ s₃) : Idle s₁ s₃ :=
  ⟨h'.session.trans h.session, h'.target.trans h.target,
    fun hTarget => (h'.executed (h.target.trans hTarget)).trans (h.executed hTarget)⟩

/-- Two computations with the same outcome in a state. Success is idle, and `done` says
what comes out and which text is left. -/
structure Alike {α : Type} (action action' : Expand α) (s : ExpandState)
    (done : α → List Char → Prop) : Prop where
  agree : outcome action s = outcome action' s
  idle : ∀ {a s'}, outcome action' s = (.ok a, s') → Idle s s' ∧ done a s'.rest

namespace Alike

variable {α β : Type} {action action' : Expand α} {s : ExpandState} {done : α → List Char → Prop}

theorem same (h : ∀ {a s'}, outcome action s = (.ok a, s') → Idle s s' ∧ done a s'.rest) :
    Alike action action s done :=
  ⟨rfl, h⟩

theorem of_ok {a : α} {s' : ExpandState} (h : outcome action s = (.ok a, s')) (hIdle : Idle s s')
    (hDone : done a s'.rest) : Alike action action s done := by
  refine same fun {b t} hOutcome => ?_
  rw [h] at hOutcome
  cases hOutcome
  exact ⟨hIdle, hDone⟩

theorem throw (failure : Failure) : Alike (MonadExcept.throw failure : Expand α)
    (MonadExcept.throw failure) s done := by
  refine same fun hOutcome => ?_
  cases hOutcome

theorem congr {first second : Expand α} (h : Alike first second s done)
    (hFirst : outcome action s = outcome first s) (hSecond : outcome action' s = outcome second s) :
    Alike action action' s done :=
  ⟨hFirst.trans (h.agree.trans hSecond.symm), fun hOutcome => h.idle (hSecond ▸ hOutcome)⟩

theorem pure {a : α} (h : done a s.rest) : Alike (Pure.pure a) (Pure.pure a) s done :=
  of_ok rfl (.refl s) h

theorem bind {next next' : α → Expand β} {done' : β → List Char → Prop}
    (h : Alike action action' s done)
    (hNext : ∀ {a middle}, Idle s middle → done a middle.rest → Alike (next a) (next' a) middle done') :
    Alike (action >>= next) (action' >>= next') s done' := by
  refine ⟨?_, fun {b s'} hOutcome => ?_⟩
  · rw [outcome_bind, outcome_bind, h.agree]
    generalize hFirst : outcome action' s = result
    obtain ⟨_ | a, middle⟩ := result
    · rfl
    · obtain ⟨hIdle, hDone⟩ := h.idle hFirst
      exact (hNext hIdle hDone).agree
  · obtain ⟨a, middle, hFirst, hRest⟩ := outcome_bind_ok hOutcome
    obtain ⟨hIdle, hDone⟩ := h.idle hFirst
    obtain ⟨hIdle', hDone'⟩ := (hNext hIdle hDone).idle hRest
    exact ⟨hIdle.trans hIdle', hDone'⟩

theorem mono {done' : α → List Char → Prop} (h : Alike action action' s done)
    (hDone : ∀ a rest, done a rest → done' a rest) : Alike action action' s done' :=
  ⟨h.agree, fun hOutcome => (h.idle hOutcome).imp_right (hDone _ _)⟩

theorem descend (env : Env) : Alike (Expand.descend env) (Expand.descend env) s
    fun _ rest => rest = s.rest := by
  refine same fun {u s'} hOutcome => ?_
  rw [outcome_descend] at hOutcome
  split at hOutcome
  · cases hOutcome
  · cases hOutcome
    exact ⟨⟨rfl, rfl, fun _ => rfl⟩, rfl⟩

theorem ascend : Alike Expand.ascend Expand.ascend s fun _ rest => rest = s.rest :=
  of_ok (outcome_ascend s) ⟨rfl, rfl, fun _ => rfl⟩ rfl

theorem advance (count : Nat) : Alike (Expand.advance count) (Expand.advance count) s
    fun _ rest => rest = s.rest.drop count :=
  of_ok (outcome_advance count s) ⟨rfl, rfl, fun _ => rfl⟩ (s.rest_advance count)

theorem rest : Alike Expand.rest Expand.rest s fun text rest => text = s.rest ∧ rest = s.rest :=
  of_ok (outcome_rest s) (.refl s) ⟨rfl, rfl⟩

theorem document : Alike Expand.document Expand.document s
    fun document rest => document = s.document ∧ rest = s.rest :=
  of_ok (outcome_document s) (.refl s) ⟨rfl, rfl⟩

/-- Nothing fires in the normalizing pass. -/
theorem addExecuted {count : Nat} (h : s.document.target = .normalize → count = 0) :
    Alike (Expand.addExecuted count) (Expand.addExecuted count) s fun _ rest => rest = s.rest := by
  refine of_ok (outcome_addExecuted count s) ⟨rfl, rfl, fun hTarget => ?_⟩ rfl
  change s.document.executed + count = _
  rw [h hTarget, Nat.add_zero]

theorem suspended (h : Alike action action' s.suspend done) :
    Alike (Expand.suspended action) (Expand.suspended action') s done := by
  refine ⟨?_, fun {a s'} hOutcome => ?_⟩
  · rw [outcome_suspended, outcome_suspended, h.agree]
  · obtain ⟨middle, hInner, rfl⟩ := suspended_ok hOutcome
    obtain ⟨hIdle, hDone⟩ := h.idle hInner
    exact ⟨⟨hIdle.session, hIdle.target, hIdle.executed⟩, hDone⟩

theorem settleParagraph (policy : BreakPolicy) : Alike (Expand.settleParagraph policy)
    (Expand.settleParagraph policy) s fun _ rest => rest = s.rest :=
  of_ok (outcome_settleParagraph policy s) ⟨rfl, rfl, fun _ => rfl⟩ rfl

end Alike

/-- A state in which all macros are tame. -/
structure Rereading (s : ExpandState) : Prop where
  built : s.session.registry.Built
  tame : s.session.registry.Tame

theorem Rereading.later {s s' : ExpandState} (h : Rereading s) (hIdle : Idle s s') :
    Rereading s' := by
  obtain ⟨hBuilt, hTame⟩ := h
  constructor <;> rw [hIdle.session] <;> assumption

/-- Where a block ends: at the end of the text, or at its closing brace. -/
inductive Closes : Option (List Char) → List Char → List Char → Prop where
  | atEnd : Closes none [] []
  | brace (after : List Char) : Closes (some ['\x7d']) ('\x7d' :: after) after

/-- Two readers of blocks that do the same on inert text, and read all of it, if the
point that `behind` characters come behind is not inside of the block. -/
def AlikeReaders (behind : Nat) (block block' : BlockReader) : Prop :=
  ∀ {marker? content tail after s}, Closes marker? tail after → Rereading s →
    Inert s.session.registry .running content → s.rest = content ++ tail →
    Beside behind s.rest after → Alike (block marker?) (block' marker?) s fun _ rest => rest = after

section Reading

variable {env : Env} {block block' : BlockReader} {rounds rounds' : Nat} {s : ExpandState}
  {behind : Nat}

/-- An invocation is dispatched alike if its handler runs alike one level deeper. -/
theorem alike_dispatch {handler : Handler} {length : Nat} {after : List Char}
    (hRun : ∀ middle, Idle s middle → middle.rest = s.rest.drop length →
      Alike (runHandler env block rounds handler (String.ofList (s.rest.take length)))
        (runHandler env block' rounds' handler (String.ofList (s.rest.take length))) middle
        fun expansion rest => (s.document.target = .normalize → expansion.firings = 0) ∧
          rest = after) :
    Alike (Expand.dispatch env block rounds handler length)
      (Expand.dispatch env block' rounds' handler length) s fun _ rest => rest = after := by
  refine Alike.rest.bind fun {text middle} hRead hHere => ?_
  obtain ⟨rfl, hHere⟩ := hHere
  refine (Alike.advance length).bind fun {u advanced} hAdvanced hBehind => ?_
  refine (Alike.descend env).bind fun {u entered} hEntered hInner => ?_
  have hIdle := (hRead.trans hAdvanced).trans hEntered
  refine (hRun entered hIdle (by rw [hInner, hBehind, hHere])).bind fun {expansion last} hLast hEnd => ?_
  obtain ⟨hFirings, hAfter⟩ := hEnd
  refine Alike.ascend.bind fun {u exited} hExited hSame => ?_
  have hCount : exited.document.target = .normalize → expansion.firings = 0 := by
    rw [((hIdle.trans hLast).trans hExited).target]
    exact hFirings
  exact (Alike.addExecuted hCount).bind fun _ hRest => .pure ((hRest.trans hSame).trans hAfter)

theorem alike_literal (c : Char) : Alike (Expand.literal c) (Expand.literal c) s
    fun _ rest => rest = s.rest.drop 1 :=
  .of_ok (outcome_literal c s) ⟨rfl, rfl, fun _ => rfl⟩ (ExpandState.rest_advance _ 1)

/-- An escape is read as its character again. -/
theorem alike_escapedChar {char : EscapedChar} {after : List Char}
    (hRest : s.rest = char.ctx.toList ++ after) :
    Alike (Expand.dispatch env block rounds (.builtin (.escapedChar char)) char.ctx.toList.length)
      (Expand.dispatch env block' rounds' (.builtin (.escapedChar char)) char.ctx.toList.length) s
      fun _ rest => rest = after := by
  have hInvocation : String.ofList (s.rest.take char.ctx.toList.length) = char.ctx := by
    rw [hRest, List.take_left, String.ofList_toList]
  refine alike_dispatch fun middle hIdle hMiddle => ?_
  rw [hInvocation]
  refine .of_ok (outcome_escapedChar char char.ctx middle) ⟨rfl, rfl, fun _ => rfl⟩ ⟨?_, ?_⟩
  · intro hTarget
    have hRender : char.render .normalize = char.ctx := rfl
    rw [hIdle.target, hTarget, hRender, if_pos rfl]
    rfl
  · change middle.rest = after
    rw [hMiddle, hRest, List.drop_left]

/-- A formula is read up to its second dollar sign again. -/
theorem alike_formula {formula after : List Char} (hFormula : '$' ∉ formula)
    (hRest : s.rest = '$' :: (formula ++ '$' :: after)) :
    Alike (Expand.dispatch env block rounds (.builtin .math) 1)
      (Expand.dispatch env block' rounds' (.builtin .math) 1) s fun _ rest => rest = after := by
  refine alike_dispatch fun middle hIdle hMiddle => ?_
  rw [hRest, List.drop_succ_cons, List.drop_zero] at hMiddle
  refine .of_ok (outcome_math hMiddle hFormula) ⟨rfl, rfl, fun _ => rfl⟩ ⟨?_, ?_⟩
  · intro hTarget
    rw [hIdle.target, hTarget, if_neg (by decide)]
    rfl
  · rw [ExpandState.rest_advance]
    change middle.rest.drop (formula.length + 1) = after
    rw [hMiddle, ← List.singleton_append, ← List.append_assoc]
    exact List.drop_left' (by simp)

/-- Outside of the normalizing pass an evaluation reads no text. -/
theorem alike_evaluate (hTarget : s.document.target ≠ .normalize) (user : UserMacro)
    (values : List String) :
    Alike (Expand.evaluate env block rounds user values)
      (Expand.evaluate env block' rounds' user values) s fun _ rest => rest = s.rest := by
  refine ⟨(outcome_evaluate block rounds user values hTarget).trans
    (outcome_evaluate block' rounds' user values hTarget).symm, fun {text s'} hOutcome => ?_⟩
  rw [outcome_evaluate block' rounds' user values hTarget] at hOutcome
  split at hOutcome
  · cases hOutcome
  · split at hOutcome
    · cases hOutcome
      exact ⟨.refl s, rfl⟩
    · cases hOutcome

variable (hBlock : AlikeReaders behind block block')
include hBlock

/-- A scope with inert contents is read to its closing brace. -/
theorem alike_parsedScope (hs : Rereading s) {content after : List Char}
    (hInert : Inert s.session.registry .running content)
    (hRest : s.rest = '\x7b' :: (content ++ '\x7d' :: after)) (hBeside : Beside behind s.rest after) :
    Alike (Expand.parsedScope env block) (Expand.parsedScope env block') s
      fun _ rest => rest = after := by
  have hBegin : Alike expectScopeBegin expectScopeBegin s
      fun _ rest => rest = content ++ '\x7d' :: after := by
    refine .of_ok (outcome_expectScopeBegin hRest) ⟨rfl, rfl, fun _ => rfl⟩ ?_
    rw [s.rest_advance, hRest, List.drop_succ_cons, List.drop_zero]
  refine hBegin.bind fun {u opened} hOpened hInner => (Alike.descend env).bind
    fun {u entered} hEntered hSame => ?_
  have hIdle := hOpened.trans hEntered
  have hText : entered.rest = content ++ '\x7d' :: after := hSame.trans hInner
  have hRead := hBlock (.brace after) (hs.later hIdle) (by rwa [hIdle.session]) hText
    (hBeside.inner (by rw [hText, hRest]; simp) (Nat.le_refl _))
  exact hRead.bind fun {text last} _ hLast => Alike.ascend.bind fun _ hExited =>
    .pure (hExited.trans hLast)

/-- One scope of several is read, which leaves the others. -/
theorem alike_argument (hs : Rereading s) {flag : Bool} {flags : List Bool}
    {scopes after : List Char} (hInert : Inert s.session.registry (.scopes (flag :: flags)) scopes)
    (hRest : s.rest = scopes ++ after) (hBeside : Beside behind s.rest after) :
    Alike (Expand.argument env block flag) (Expand.argument env block' flag) s fun _ rest =>
      Beside behind rest after ∧
        ∃ others, Inert s.session.registry (.scopes flags) others ∧ rest = others ++ after := by
  cases hInert with
  | @verbatimScope content others _ hContent hOthers =>
      have hScope : s.rest = '\x7b' :: (content ++ '\x7d' :: (others ++ after)) := by
        rw [hRest]
        simp
      have hBehind : (s.advance (content.length + 2)).rest = others ++ after := by
        rw [s.rest_advance, hScope, List.drop_succ_cons, ← List.singleton_append,
          ← List.append_assoc]
        exact List.drop_left' (by simp)
      refine .of_ok (outcome_verbatimScope hScope hContent) ⟨rfl, rfl, fun _ => rfl⟩
        ⟨hBeside.inner ?_ (Nat.le_refl _), others, hOthers, hBehind⟩
      rw [hBehind, hScope]
      simp only [List.length_cons, List.length_append]
      omega
  | @parsedScope content others _ hContent hOthers =>
      have hScope : s.rest = '\x7b' :: (content ++ '\x7d' :: (others ++ after)) := by
        rw [hRest]
        simp
      refine (alike_parsedScope hBlock hs hContent hScope
        (hBeside.inner (Nat.le_refl _) (by simp))).mono fun text rest hRead => ?_
      refine ⟨hBeside.inner ?_ (Nat.le_refl _), others, hOthers, hRead⟩
      rw [hRead, hScope]
      simp only [List.length_cons, List.length_append]
      omega

/-- All scopes are read, and the text behind them is left. -/
theorem alike_arguments (hs : Rereading s) {flags : List Bool} {scopes after : List Char}
    (hInert : Inert s.session.registry (.scopes flags) scopes) (hRest : s.rest = scopes ++ after)
    (hBeside : Beside behind s.rest after) :
    Alike (flags.mapM (Expand.argument env block)) (flags.mapM (Expand.argument env block')) s
      fun _ rest => rest = after := by
  induction flags generalizing s scopes with
  | nil =>
      cases hInert
      exact .pure hRest
  | cons flag flags ih =>
      rw [List.mapM_cons, List.mapM_cons]
      refine (alike_argument hBlock hs hInert hRest hBeside).bind fun {value middle} hIdle hRead => ?_
      obtain ⟨hBeside', others, hOthers, hMiddle⟩ := hRead
      rw [← hIdle.session] at hOthers
      exact (ih (hs.later hIdle) hOthers hMiddle hBeside').bind fun _ hLast => .pure hLast

/-- A command without parameters is written with an empty scope. -/
theorem alike_callArgs (hs : Rereading s) {user : UserMacro} (hKind : user.kind = .command)
    {scopes after : List Char}
    (hScopes : user.signature.verbatim ≠ [] ∧
        Inert s.session.registry (.scopes user.signature.verbatim) scopes ∨
      user.signature.verbatim = [] ∧ scopes = ['\x7b', '\x7d'])
    (hRest : s.rest = scopes ++ after) (hBeside : Beside behind s.rest after) (indent : Nat) :
    Alike (callArgs env block user indent) (callArgs env block' user indent) s
      fun _ rest => rest = after := by
  unfold callArgs
  rcases hScopes with ⟨hSome, hInert⟩ | ⟨hNone, rfl⟩
  · rw [List.isEmpty_eq_false_iff.mpr hSome, if_neg (by decide), if_neg (by decide)]
    have hArguments : Alike (arguments env block user indent) (arguments env block' user indent) s
        fun _ rest => rest = after := by
      unfold arguments
      rw [hKind]
      exact (alike_arguments hBlock hs hInert hRest hBeside).bind fun _ hLast => .pure hLast
    exact hArguments.bind fun _ hLast => .pure hLast
  · rw [hNone, List.isEmpty_nil, if_pos rfl, if_pos rfl]
    have hEmpty : Alike emptyScope emptyScope s fun _ rest => rest = after := by
      refine .of_ok (outcome_emptyScope_braces hRest) ⟨rfl, rfl, fun _ => rfl⟩ ?_
      rw [s.rest_advance, hRest]
      rfl
    exact hEmpty.bind fun _ hLast => .pure hLast

/-- A command of a later pass is read with its scopes and written again. -/
theorem alike_invoke (hs : Rereading s) {user : UserMacro} (hKind : user.kind = .command)
    (hMode : user.signature.mode ≠ .normalize) {scopes after : List Char}
    (hScopes : user.signature.verbatim ≠ [] ∧
        Inert s.session.registry (.scopes user.signature.verbatim) scopes ∨
      user.signature.verbatim = [] ∧ scopes = ['\x7b', '\x7d'])
    (hRest : s.rest = scopes ++ after) (hBeside : Beside behind s.rest after) (invocation : String) :
    Alike (Expand.invoke env block rounds user invocation)
      (Expand.invoke env block' rounds' user invocation) s fun expansion rest =>
        (s.document.target = .normalize → expansion.firings = 0) ∧ rest = after := by
  refine Alike.document.bind fun {current here} hRead hHere => ?_
  obtain ⟨rfl, hHere⟩ := hHere
  refine (Alike.settleParagraph user.signature.policy).bind fun {marker settled} hSettled hSame => ?_
  have hIdle := hRead.trans hSettled
  have hText : settled.rest = s.rest := hSame.trans hHere
  have hLater := hs.later hIdle
  have hSuspended : Rereading settled.suspend := ⟨hLater.built, hLater.tame⟩
  rw [← hIdle.session] at hScopes
  rw [← hText] at hRest hBeside
  refine (alike_callArgs hBlock hSuspended hKind hScopes hRest hBeside _).suspended.bind
    fun {args resumed} hResumed hAfter => Alike.document.bind fun {current last} hRead' hHere' => ?_
  obtain ⟨rfl, hLast⟩ := hHere'
  have hTarget : resumed.document.target = s.document.target := (hIdle.trans hResumed).target
  by_cases hApplies : user.signature.mode.appliesTo resumed.document.target
  · have hRender : s.document.target ≠ .normalize := by
      intro hNormalize
      rw [hTarget, hNormalize, Mode.appliesTo_normalize hMode] at hApplies
      cases hApplies
    rw [if_pos hApplies, if_pos hApplies]
    refine (alike_evaluate (by rw [hRead'.target, hTarget]; exact hRender) user _).bind
      fun _ hEnd => .pure ⟨fun hNormalize => absurd hNormalize hRender, ?_⟩
    exact (hEnd.trans hLast).trans hAfter
  · rw [if_neg hApplies, if_neg hApplies]
    exact .pure ⟨fun _ => rfl, hLast.trans hAfter⟩

/-- Reading a token, and all that it takes in. -/
theorem alike_token (hs : Rereading s) {found : Option (Nat × Handler)} {text after : List Char}
    (hToken : Token s.session.registry found text after) (hRest : s.rest = text)
    (hFound : s.session.registry.lookup? text = found)
    (hBeside : ∀ length user, found = some (length, .user user) → Beside behind s.rest after) :
    Alike (Expand.place env block rounds) (Expand.place env block' rounds') s
      fun _ rest => rest = after := by
  have hPlace : ∀ length handler, found = some (length, handler) →
      Alike (Expand.dispatch env block rounds handler length)
        (Expand.dispatch env block' rounds' handler length) s (fun _ rest => rest = after) →
      Alike (Expand.place env block rounds) (Expand.place env block' rounds') s
        fun _ rest => rest = after := by
    rintro length handler rfl ⟨hAgree, hIdle⟩
    rw [← hRest] at hFound
    have hSome : s.rest ≠ [] := by
      intro hNil
      obtain ⟨key, hLongest, -⟩ := hs.built.wellFormed.longest_of_lookup? hFound
      rw [hNil] at hLongest
      exact hLongest.ne_nil (List.prefix_nil.mp hLongest.matched)
    have hLeft := outcome_place_dispatch env block rounds hSome hFound
    have hRight := outcome_place_dispatch env block' rounds' hSome hFound
    exact ⟨by rw [hLeft, hRight, hAgree], fun {a s'} hOutcome => hIdle (hRight ▸ hOutcome)⟩
  cases hToken with
  | literal c =>
      have hLeft := outcome_place env block rounds hRest
      have hRight := outcome_place env block' rounds' hRest
      rw [hFound] at hLeft hRight
      obtain ⟨-, hIdle⟩ := alike_literal (s := s) c
      refine ⟨hLeft.trans hRight.symm, fun {a s'} hOutcome => ?_⟩
      rw [hRight] at hOutcome
      rw [hRest] at hIdle
      exact hIdle hOutcome
  | escapedChar _ hSpelling =>
      subst hSpelling
      exact hPlace _ _ rfl (alike_escapedChar hRest)
  | formula _ hFormula => exact hPlace _ _ rfl (alike_formula hFormula hRest)
  | @deferred user scopes _ hKind hMode hScopes =>
      refine hPlace _ _ rfl (alike_dispatch fun middle hIdle hMiddle => ?_)
      have hInner : middle.rest = scopes ++ after := by
        rw [hMiddle, hRest, List.drop_succ_cons, List.drop_left]
      have hShorter : middle.rest.length ≤ s.rest.length := by
        rw [hInner, hRest]
        simp only [List.length_cons, List.length_append]
        omega
      rw [← hIdle.session] at hScopes
      rw [← hIdle.target]
      exact alike_invoke hBlock (hs.later hIdle) hKind hMode hScopes hInner
        ((hBeside _ _ rfl).inner hShorter (Nat.le_refl _)) _

/-- A place of inert text, which is stable, leaves inert text before the same tail, or
takes a quote of the tail in. -/
theorem alike_place (hs : Rereading s) {content tail : List Char}
    (hInert : Inert s.session.registry .running content) (hContent : content ≠ [])
    (hRest : s.rest = content ++ tail) (hBeside : Beside behind s.rest tail) :
    Alike (placeIf (stable behind) env block rounds) (Expand.place env block' rounds') s
      fun _ rest => rest.length ≤ s.rest.length ∧ Left s.session.registry content tail rest := by
  have hStable := hInert.stable block hs.built hs.tame hContent hRest hBeside
  obtain ⟨after, hToken, hLeft⟩ := hInert.first hs.built hs.tame hContent tail
  have hUser : ∀ length user, s.session.registry.lookup? (content ++ tail) =
      some (length, .user user) → Beside behind s.rest after := by
    intro length user hFound
    rcases hLeft with ⟨others, -, rfl⟩ | ⟨c, hQuote, rfl, rfl⟩
    · exact hBeside.inner (Nat.le_refl _) (by simp)
    · obtain ⟨char, -, -, hTwice⟩ := hs.built.lookup?_doubled hQuote after
      rw [List.singleton_append, hTwice] at hFound
      cases hFound
  have hAllowed : outcome (placeIf (stable behind) env block rounds) s =
      outcome (Expand.place env block rounds) s := by
    rw [outcome_placeIf, if_pos hStable]
  refine ((alike_token hBlock hs hToken hRest rfl hUser).congr hAllowed rfl).mono ?_
  rintro _ rest rfl
  rw [hRest]
  exact ⟨hToken.shorter, hLeft⟩

omit hBlock

/-- The induction is on the fuel; each place of the block leaves inert text
before the same end. -/
theorem alike_loop (env : Env) (fuel : Nat) {marker? : Option (List Char)}
    {content tail after : List Char} (output : String) (hCloses : Closes marker? tail after)
    (hs : Rereading s) (hInert : Inert s.session.registry .running content)
    (hRest : s.rest = content ++ tail) (hBeside : Beside behind s.rest after) :
    Alike (loop (placeIf (stable behind) env) fuel marker? output)
      (loop (Expand.place env) fuel marker? output) s fun _ rest => rest = after := by
  induction fuel generalizing marker? content tail after output s with
  | zero =>
      exact (Alike.throw .outOfFuel).congr (outcome_loop_zero _ marker? output s)
        (outcome_loop_zero _ marker? output s)
  | succ fuel ih =>
      by_cases hContent : content = []
      · subst hContent
        cases hCloses with
        | atEnd =>
            have hEnd := fun read => outcome_loop_atEnd read fuel output hRest
            exact (Alike.pure hRest).congr (hEnd _) (hEnd _)
        | brace =>
            have hPrefix : ['\x7d'].isPrefixOf s.rest := by
              rw [hRest]
              rfl
            have hEnd := fun read =>
              outcome_loop_marker read fuel output (by rw [hRest]; simp) hPrefix
            have hAdvanced : Alike (Expand.advance 1 >>= fun _ => Pure.pure output)
                (Expand.advance 1 >>= fun _ => Pure.pure output) s fun _ rest => rest = after :=
              (Alike.advance 1).bind fun _ hMiddle => .pure (by rw [hMiddle, hRest]; rfl)
            exact hAdvanced.congr (hEnd _) (hEnd _)
      · have hNotEnd : ¬ endsAt marker? s.rest := by
          rintro ⟨marker, rfl, hPrefix⟩
          cases hCloses
          rw [List.isPrefixOf_iff_prefix, hRest] at hPrefix
          cases content with
          | nil => exact hContent rfl
          | cons c more => exact hInert.head_ne (List.cons_prefix_cons.mp hPrefix).1.symm
        have hNonempty : s.rest ≠ [] := by
          rw [hRest]
          simp [hContent]
        have hReader : AlikeReaders behind (blockIf (stable behind) env fuel)
            (fun marker? => loop (Expand.place env) fuel marker? "") :=
          fun hCloses hs hInert hRest hBeside => ih "" hCloses hs hInert hRest hBeside
        have hOuter : Beside behind s.rest tail := by
          cases hCloses with
          | atEnd => exact hBeside
          | brace => exact hBeside.inner (Nat.le_refl _) (by simp)
        have hPlace := fun read => outcome_loop_place read fuel output hNonempty hNotEnd
        refine ((alike_place hReader hs hInert hContent hRest hOuter).bind
          fun {piece middle} hIdle hDone => ?_).congr (hPlace _) (hPlace _)
        obtain ⟨hShorter, ⟨others, hOthers, hMiddle⟩ | ⟨c, hQuote, -, hTail⟩⟩ := hDone
        · rw [← hIdle.session] at hOthers
          exact ih _ hCloses (hs.later hIdle) hOthers hMiddle
            (hBeside.inner hShorter (Nat.le_refl _))
        · subst hTail
          cases hCloses
          exact absurd hQuote (by decide)

/-- The run law: inert text is read alike with the guard and without it. -/
theorem alikeReaders (env : Env) (fuel behind : Nat) :
    AlikeReaders behind (blockIf (stable behind) env fuel) (blockReader env fuel) := by
  intro marker? content tail after s hCloses hs hInert hRest hBeside
  unfold blockReader
  rw [block_eq_loop]
  exact alike_loop env fuel "" hCloses hs hInert hRest hBeside

/-- Where two inert texts meet, no spelling is found but two quotes that meet there. -/
theorem alike_parts (env : Env) (fuel : Nat) {content tail : List Char} (output : String)
    (hs : Rereading s) (hInert : Inert s.session.registry .running content)
    (hTail : Inert s.session.registry .running tail) (hRest : s.rest = content ++ tail) :
    Alike (loop (placeIf (stable tail.length) env) fuel none output)
      (Expand.block env fuel none output) s fun _ rest => rest = [] := by
  have hWhole : ∀ {fuel output content s}, Rereading s → Inert s.session.registry .running content →
      s.rest = content → content.length ≤ tail.length →
      Alike (loop (placeIf (stable tail.length) env) fuel none output)
        (loop (Expand.place env) fuel none output) s fun _ rest => rest = [] := by
    intro fuel output content s hs hInert hRest hBeside
    exact alike_loop env fuel output .atEnd hs hInert (hRest.trans (List.append_nil _).symm)
      (.inr (hRest ▸ hBeside))
  rw [block_eq_loop]
  induction fuel generalizing content output s with
  | zero =>
      exact (Alike.throw .outOfFuel).congr (outcome_loop_zero _ none output s)
        (outcome_loop_zero _ none output s)
  | succ fuel ih =>
      by_cases hContent : content = []
      · subst hContent
        exact hWhole hs hTail hRest (Nat.le_refl _)
      · have hNonempty : s.rest ≠ [] := by
          rw [hRest]
          simp [hContent]
        have hPlace := fun read => outcome_loop_place read fuel output hNonempty (not_endsAt_none _)
        have hReaders : AlikeReaders tail.length (blockIf (stable tail.length) env fuel)
            (fun marker? => loop (Expand.place env) fuel marker? "") :=
          fun hCloses hs hInert hRest hBeside => alike_loop env fuel "" hCloses hs hInert hRest hBeside
        refine ((alike_place hReaders hs hInert hContent hRest (.inl (Nat.le_refl _))).bind
          fun {piece middle} hIdle hDone => ?_).congr (hPlace _) (hPlace _)
        have hLater := hs.later hIdle
        rw [← hIdle.session] at hTail
        obtain ⟨-, ⟨others, hOthers, hMiddle⟩ | ⟨c, hQuote, -, rfl⟩⟩ := hDone
        · rw [← hIdle.session] at hOthers
          exact ih _ hLater hOthers hTail hMiddle
        · have hMark : ∀ c ∈ Registry.quotes, c ∉ ['\\', '\x7b', '\x7d', '%', '$'] := by decide
          exact hWhole hLater (hTail.tail (hMark c hQuote)) rfl (by simp)

end Reading

/-- A round over inert text fires nothing, if it succeeds. -/
theorem round_idle (env : Env) (fuel : Nat) {s s' : ExpandState} (hs : Rereading s)
    (hTarget : s.document.target = .normalize) {text : String}
    (hInert : Inert s.session.registry .running text.toList) {result : String × Nat}
    (h : outcome (round (blockReader env fuel) text) s = (.ok result, s')) : result.2 = 0 := by
  obtain ⟨output, middle, hOutput, rfl, -⟩ := round_ok h
  have hStart : Rereading (s.withDocument (s.document.generated text)) := ⟨hs.built, hs.tame⟩
  have hAlike := alikeReaders env fuel 0 .atEnd hStart hInert (List.append_nil _).symm
    (.inl (Nat.zero_le _))
  exact (hAlike.idle hOutput).1.executed hTarget

end Expand

end MacroMarkup
