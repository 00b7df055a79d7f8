import MacroMarkup.Proofs.Registry.Built

/-! The bodies of macros. Each has as many parameters as the signature of its macro, and
one that is bound stays bound. -/
namespace MacroMarkup

/-- Every body can be applied to what the signature says. -/
def UserMacro.Fitting (user : UserMacro) : Prop :=
  ∀ body ∈ user.bodies.toList, body.params.length = user.signature.verbatim.length

/-- Inserting a body brings in no other one. -/
theorem Bodies.mem_insert {bodies : Bodies} {body other : MacroBody}
    (h : other ∈ (bodies.insert body).toList) : other = body ∨ other ∈ bodies.toList := by
  obtain ⟨raw, script⟩ := bodies
  unfold insert toList at *
  cases hLanguage : body.language <;> simp only [hLanguage, Option.toList_some,
    List.mem_append, List.mem_singleton] at h ⊢
  · exact h.imp_right .inr
  · exact h.symm.imp_right .inl

/-- The bodies of a macro are those of the languages. -/
theorem Bodies.mem_toList {bodies : Bodies} {body : MacroBody} :
    body ∈ bodies.toList ↔ ∃ language, bodies.get? language = some body := by
  unfold toList
  rw [List.mem_append, Option.mem_toList, Option.mem_toList]
  constructor
  · rintro (h | h)
    · exact ⟨.raw, h⟩
    · exact ⟨.script, h⟩
  · rintro ⟨language, h⟩
    cases language with
    | raw => exact .inl h
    | script => exact .inr h

/-- A body in a language that had none leaves the other one. -/
theorem Bodies.get?_insert_of_some {bodies : Bodies} {body other : MacroBody} {language : Language}
    (hFree : bodies.get? body.language = none) (h : bodies.get? language = some other) :
    (bodies.insert body).get? language = some other := by
  have hNe : language ≠ body.language := by
    rintro rfl
    rw [hFree] at h
    cases h
  unfold insert
  cases hLanguage : body.language <;> cases language <;> simp_all [get?]

/-- The body that is preferred is one of the macro. -/
theorem UserMacro.mem_of_preferredBody? {user : UserMacro} {evaluator : Evaluator} {body : MacroBody}
    (h : user.preferredBody? evaluator = some body) : body ∈ user.bodies.toList := by
  unfold preferredBody? at h
  unfold Bodies.toList
  rw [List.mem_append, Option.mem_toList, Option.mem_toList]
  split at h
  · exact .inr h
  · generalize user.bodies.raw = raw at h ⊢
    cases raw with
    | none => exact .inr h
    | some first => exact .inl h

/-- The body of a definition has its parameters. -/
theorem Declaration.define_fitting (declaration : Declaration) (kind : MacroKind) (code : String) :
    (UserMacro.ofDefinition (declaration.define kind code)).Fitting := by
  intro body hBody
  have hOnly : body = (declaration.define kind code).body :=
    (Bodies.mem_insert hBody).resolve_right (by simp [Bodies.toList])
  rw [hOnly]
  change (declaration.params.map Param.name).length = (declaration.params.map Param.verbatim).length
  rw [List.length_map, List.length_map]

namespace Registry

theorem handlers_builtins :
    builtins.handlers.all (fun handler =>
      match handler with
      | .builtin _ => true
      | .user _ => false) = true := by
  decide +kernel

theorem userMacro?_builtins (spelling : String) : builtins.userMacro? spelling = none := by
  cases hFound : builtins.userMacro? spelling with
  | none => rfl
  | some user => cases of_all_handlers handlers_builtins (bound_of_userMacro? hFound)

/-- All macros are fitting, whatever definitions have been merged. -/
theorem Built.fitting {registry : Registry} (h : Built registry) {key : List Char} {user : UserMacro}
    (hBound : registry.bound key = some (.user user)) : user.Fitting := by
  induction h generalizing key user with
  | builtins => cases of_all_handlers handlers_builtins hBound
  | @define registry registry' kind text declaration code hBuilt hParse hDefine ih =>
      obtain ⟨user', rfl, hUser⟩ := define_ok hDefine
      rw [hBuilt.wellFormed.bound_register] at hBound
      split at hBound
      · cases hBound
        rcases hUser with ⟨-, rfl⟩ | ⟨old, hOld, hSignature, -, rfl⟩
        · exact declaration.define_fitting kind code
        · intro body hBody
          rcases Bodies.mem_insert hBody with rfl | hEarlier
          · change _ = old.signature.verbatim.length
            rw [hSignature]
            exact declaration.define_fitting kind code _ (by
              change _ ∈ (Bodies.insert {} _).toList
              cases hLanguage : (declaration.define kind code).body.language <;>
                simp [Bodies.insert, Bodies.toList, hLanguage])
          · exact ih (bound_of_userMacro? hOld) body hEarlier
      · exact ih hBound

/-- A later registry has every macro with the bodies that it had before. -/
def Holds (registry registry' : Registry) : Prop :=
  ∀ key user, registry.bound key = some (.user user) →
    ∃ bodies, registry'.bound key = some (.user { user with bodies }) ∧
      ∀ body ∈ user.bodies.toList, body ∈ bodies.toList

theorem Holds.refl (registry : Registry) : registry.Holds registry :=
  fun _ user h => ⟨user.bodies, h, fun _ h => h⟩

theorem Holds.trans {first second third : Registry} (h : first.Holds second)
    (h' : second.Holds third) : first.Holds third := by
  intro key user hBound
  obtain ⟨bodies, hSecond, hKept⟩ := h key user hBound
  obtain ⟨bodies', hThird, hKept'⟩ := h' key _ hSecond
  exact ⟨bodies', hThird, fun body hBody => hKept' body (hKept body hBody)⟩

/-- What is defined in the earlier registry is frozen in the later one: every macro is as it
was, but that it may have bodies in further languages. -/
def Frozen (registry registry' : Registry) : Prop :=
  ∀ key user, registry.bound key = some (.user user) →
    ∃ bodies, registry'.bound key = some (.user { user with bodies }) ∧
      ∀ language body, user.bodies.get? language = some body → bodies.get? language = some body

theorem Frozen.refl (registry : Registry) : registry.Frozen registry :=
  fun _ user h => ⟨user.bodies, h, fun _ _ h => h⟩

theorem Frozen.trans {first second third : Registry} (h : first.Frozen second)
    (h' : second.Frozen third) : first.Frozen third := by
  intro key user hBound
  obtain ⟨bodies, hSecond, hKept⟩ := h key user hBound
  obtain ⟨bodies', hThird, hKept'⟩ := h' key _ hSecond
  exact ⟨bodies', hThird, fun language body hBody => hKept' language body (hKept language body hBody)⟩

/-- What is frozen is held. -/
theorem Frozen.holds {registry registry' : Registry} (h : registry.Frozen registry') :
    registry.Holds registry' := by
  intro key user hBound
  obtain ⟨bodies, hLater, hKept⟩ := h key user hBound
  refine ⟨bodies, hLater, fun body hBody => ?_⟩
  obtain ⟨language, hLanguage⟩ := Bodies.mem_toList.mp hBody
  exact Bodies.mem_toList.mpr ⟨language, hKept language body hLanguage⟩

/-- A definition only adds, to a macro that is there or to the registry. -/
theorem WellFormed.define_frozen {registry registry' : Registry} (h : registry.WellFormed)
    {definition : Definition} (hDefine : registry.define definition = .ok registry') :
    registry.Frozen registry' := by
  intro key user hBound
  obtain ⟨user', rfl, hUser⟩ := define_ok hDefine
  rw [h.bound_register]
  split
  · rename_i hKey
    rw [hKey] at hBound
    rcases hUser with ⟨hNew, -⟩ | ⟨old, hOld, -, hFree, rfl⟩
    · unfold userMacro? at hNew
      rw [get?_eq_bound, hBound] at hNew
      cases hNew
    · rw [bound_of_userMacro? hOld] at hBound
      cases hBound
      exact ⟨_, rfl, fun language body hBody => Bodies.get?_insert_of_some hFree hBody⟩
  · exact ⟨user.bodies, hBound, fun _ _ hBody => hBody⟩

/-- A definition keeps every macro, and the bodies that it had. -/
theorem Built.define_holds {registry registry' : Registry} (h : Built registry)
    {definition : Definition} (hDefine : registry.define definition = .ok registry') :
    registry.Holds registry' :=
  (h.wellFormed.define_frozen hDefine).holds

/-- A definition keeps every macro, with its kind, name and signature. -/
theorem Built.define_extends {registry registry' : Registry} (h : Built registry)
    {definition : Definition} (hDefine : registry.define definition = .ok registry') :
    registry.Extends registry' := by
  intro key user hBound
  obtain ⟨bodies, hLater, -⟩ := h.define_holds hDefine key user hBound
  exact ⟨bodies, hLater⟩

/-- What an evaluator is asked: a body of a macro of the registry, applied to as many values
as the body and the signature of the macro have parameters. -/
structure Calls (registry : Registry) (name : String) (body : MacroBody) (values : List String) :
    Prop where
  bound : ∃ key user, registry.bound key = some (.user user) ∧ user.name = name ∧
    body ∈ user.bodies.toList ∧ values.length = user.signature.verbatim.length
  arity : values.length = body.params.length

/-- A macro looked up in a registry is called as the later registries say. -/
theorem Built.calls {registry later : Registry} (h : Built registry) (hHolds : registry.Holds later)
    {text : List Char} {length : Nat} {user : UserMacro}
    (hFound : registry.lookup? text = some (length, .user user)) {evaluator : Evaluator}
    {body : MacroBody} (hBody : user.preferredBody? evaluator = some body) {values : List String}
    (hLength : values.length = user.signature.verbatim.length) :
    later.Calls user.name body values := by
  obtain ⟨key, hLongest, -⟩ := h.wellFormed.longest_of_lookup? hFound
  have hMem := UserMacro.mem_of_preferredBody? hBody
  obtain ⟨bodies, hBound, hKept⟩ := hHolds key user hLongest.bound
  refine ⟨⟨key, _, hBound, rfl, hKept body hMem, hLength⟩, ?_⟩
  rw [hLength, h.fitting hLongest.bound body hMem]

end Registry

end MacroMarkup
