import MacroMarkup.Proofs.PrefixIndex
import MacroMarkup.Substitution
import Mathlib.Data.List.Nodup

/-! Substitution of arguments is one pass over the code, which replaces all references at
once: the text of an argument is never read again. -/
namespace MacroMarkup

/-- The argument that a name is bound to, of several the last. A name that no argument is
left for is not bound. -/
def argument? (params args : List String) (name : List Char) : Option String :=
  (params.zip args).reverse.lookup (String.ofList name)

/-- Code with its references replaced, from left to right. A mark refers to the longest
bound name behind it, and reading goes on behind that name. A mark that no bound name
follows stays, as does all other text. -/
inductive Replaced (value? : List Char → Option String) : List Char → List Char → Prop where
  | nil : Replaced value? [] []
  | literal {c : Char} {code output : List Char} : c ≠ '#' → Replaced value? code output →
      Replaced value? (c :: code) (c :: output)
  | reference {name after output : List Char} {value : String} :
      LongestBound value? (name ++ after) name value → Replaced value? after output →
      Replaced value? ('#' :: (name ++ after)) (value.toList ++ output)
  | mark {code output : List Char} :
      (∀ name, name ≠ [] → name <+: code → value? name = none) → Replaced value? code output →
      Replaced value? ('#' :: code) ('#' :: output)

/-! What the parameters are bound to. -/

theorem lookup_spelled (entries : List (String × String)) (name : List Char) :
    (entries.map fun entry => (entry.1.toList, entry.2)).lookup name =
      entries.lookup (String.ofList name) := by
  induction entries with
  | nil => rfl
  | cons entry entries ih =>
      obtain ⟨param, arg⟩ := entry
      rw [List.map_cons, List.lookup_cons, List.lookup_cons, ih]
      by_cases hName : name = param.toList
      · rw [beq_iff_eq.mpr hName, hName, String.ofList_toList, beq_self_eq_true]
      · have hOther : String.ofList name ≠ param := by
          rintro rfl
          exact hName String.toList_ofList.symm
        rw [beq_eq_false_iff_ne.mpr hName, beq_eq_false_iff_ne.mpr hOther]

/-- The bindings are the arguments. -/
theorem get?_bindings (params args : List String) :
    (bindings params args).get? = argument? params args := by
  funext name
  have hEntries : bindings params args =
      PrefixIndex.ofEntries ((params.zip args).map fun entry => (entry.1.toList, entry.2)) := by
    rw [bindings, PrefixIndex.ofEntries, List.foldl_map]
  rw [hEntries, PrefixIndex.get?_ofEntries, ← List.map_reverse, lookup_spelled]
  rfl

/-- An argument is that of a parameter of its name. -/
theorem mem_of_argument? {params args : List String} {name : List Char} {value : String}
    (h : argument? params args name = some value) :
    (String.ofList name, value) ∈ params.zip args := by
  obtain ⟨before, after, hSplit, -⟩ := List.lookup_eq_some_iff.mp h
  rw [← List.mem_reverse, hSplit]
  exact List.mem_append_right before List.mem_cons_self

/-- Of several parameters with one name the last one counts. -/
theorem argument?_pairs (pairs : List (String × String)) :
    argument? (pairs.map Prod.fst) (pairs.map Prod.snd) =
      fun name => pairs.reverse.lookup (String.ofList name) := by
  funext name
  rw [argument?, ← List.zip_of_prod rfl rfl]

/-- With distinct names the order of the parameters does not count. -/
theorem argument?_perm {pairs pairs' : List (String × String)} (hPerm : pairs.Perm pairs')
    (hDistinct : (pairs.map Prod.fst).Nodup) :
    argument? (pairs.map Prod.fst) (pairs.map Prod.snd) =
      argument? (pairs'.map Prod.fst) (pairs'.map Prod.snd) := by
  have hReversed : (pairs.reverse.map Prod.fst).Nodup := by
    rwa [List.map_reverse, List.nodup_reverse]
  have hOther : (pairs'.reverse.map Prod.fst).Nodup := by
    rw [List.map_reverse, List.nodup_reverse]
    exact (hPerm.map Prod.fst).nodup_iff.mp hDistinct
  rw [argument?_pairs, argument?_pairs]
  funext name
  ext value
  rw [lookup_eq_some_iff_mem hReversed, lookup_eq_some_iff_mem hOther, List.mem_reverse,
    List.mem_reverse, hPerm.mem_iff]

/-! The pass over the code. -/

/-- What is still to be skipped is not looked at. -/
theorem substituteFrom_skip (bound : PrefixIndex String) (skip : Nat) (text : List Char) :
    substituteFrom bound skip text = substituteFrom bound 0 (text.drop skip) := by
  induction text generalizing skip with
  | nil => cases skip <;> rfl
  | cons c text ih =>
      cases skip with
      | zero => rfl
      | succ skip =>
          rw [substituteFrom, List.drop_succ_cons]
          exact ih skip

/-- Whatever is a replacement is the one that is computed. -/
theorem Replaced.substituteFrom {bound : PrefixIndex String} {code output : List Char}
    (h : Replaced bound.get? code output) : substituteFrom bound 0 code = output := by
  induction h with
  | nil => rfl
  | @literal c code output hMark _ ih => rw [MacroMarkup.substituteFrom, if_neg hMark, ih]
  | @reference name after output value hLongest _ ih =>
      have hFound := PrefixIndex.longest?_eq_some_iff.mpr ⟨name, hLongest, rfl⟩
      rw [MacroMarkup.substituteFrom, if_pos rfl, hFound]
      dsimp only
      rw [substituteFrom_skip, List.drop_left, ih]
  | @mark code output hNone _ ih =>
      have hFound := PrefixIndex.longest?_eq_none_iff.mpr hNone
      rw [MacroMarkup.substituteFrom, if_pos rfl, hFound, ih]

/-- What is computed is a replacement. -/
theorem replaced_substituteFrom (bound : PrefixIndex String) (code : List Char) :
    Replaced bound.get? code (substituteFrom bound 0 code) := by
  -- A reference takes more than one character off the code.
  generalize hLength : code.length = length
  induction length using Nat.strong_induction_on generalizing code with
  | _ length ih =>
      cases code with
      | nil => exact .nil
      | cons c rest =>
          rw [List.length_cons] at hLength
          have hRest := ih rest.length (by omega) rest rfl
          rw [substituteFrom]
          split
          · rename_i hMark
            subst hMark
            generalize hFound : bound.longest? rest = found
            cases found with
            | none => exact .mark (PrefixIndex.longest?_eq_none_iff.mp hFound) hRest
            | some found =>
                obtain ⟨skip, value⟩ := found
                obtain ⟨name, hLongest, rfl⟩ := PrefixIndex.longest?_eq_some_iff.mp hFound
                obtain ⟨after, rfl⟩ := hLongest.matched
                rw [List.length_append] at hLength
                dsimp only
                rw [substituteFrom_skip, List.drop_left]
                exact .reference hLongest (ih after.length (by omega) after rfl)
          · rename_i hMark
            exact .literal hMark hRest

/-- Substitution computes the one replacement that there is. -/
theorem substitute_eq_iff {code output : String} {params args : List String} :
    substitute code params args = output ↔
      Replaced (argument? params args) code.toList output.toList := by
  rw [← get?_bindings, substitute]
  constructor
  · rintro rfl
    rw [String.toList_ofList]
    exact replaced_substituteFrom _ _
  · intro h
    rw [h.substituteFrom, String.ofList_toList]

/-- A reference to a name that stands for itself is replaced by the same text. -/
theorem Replaced.unchanged {value? : List Char → Option String} {code output : List Char}
    (h : Replaced value? code output)
    (hSelf : ∀ name value, value? name = some value → value.toList = '#' :: name) : output = code := by
  induction h with
  | nil => rfl
  | literal _ _ ih => rw [ih]
  | reference hLongest _ ih => rw [ih, hSelf _ _ hLongest.bound, List.cons_append]
  | mark _ _ ih => rw [ih]

/-- A parameter that stands for its own reference is replaced by it. -/
theorem argument?_self {params : List String} {name : List Char} {value : String}
    (h : argument? params (params.map ("#" ++ ·)) name = some value) : value.toList = '#' :: name := by
  have hMem := mem_of_argument? h
  rw [← List.map_prod_left_eq_zip, List.mem_map] at hMem
  obtain ⟨param, -, hPair⟩ := hMem
  cases hPair
  rw [String.toList_append]
  exact congrArg ('#' :: ·) String.toList_ofList

/-- Substitution is one pass over the code that replaces all references at once. If every
parameter is bound to a reference to itself, then the code is left as it is; and if no name
repeats, then the order of the parameters with their arguments makes no difference. -/
theorem substitution_simultaneous :
    (∀ code params args output, substitute code params args = output ↔
      Replaced (argument? params args) code.toList output.toList) ∧
    (∀ code params, substitute code params (params.map ("#" ++ ·)) = code) ∧
    ∀ code (pairs pairs' : List (String × String)), pairs.Perm pairs' → (pairs.map Prod.fst).Nodup →
      substitute code (pairs.map Prod.fst) (pairs.map Prod.snd) =
        substitute code (pairs'.map Prod.fst) (pairs'.map Prod.snd) := by
  refine ⟨fun code params args output => substitute_eq_iff, fun code params => ?_,
    fun code pairs pairs' hPerm hDistinct => ?_⟩
  · have hReplaced := substitute_eq_iff.mp (rfl : substitute code params (params.map ("#" ++ ·)) = _)
    exact String.toList_inj.mp (hReplaced.unchanged fun name value => argument?_self)
  · rw [substitute_eq_iff, argument?_perm hPerm hDistinct, ← substitute_eq_iff]

/-- Names that begin one another, an argument that looks like a reference, and marks that
refer to nothing. -/
theorem substitution_simultaneous_overlapping :
    let pairs := [("a", "#ab"), ("ab", "é#a")]
    pairs.Perm pairs.reverse ∧ (pairs.map Prod.fst).Nodup ∧
      substitute "#ab##a#c" ["a", "ab"] ["#ab", "é#a"] = "é#a##ab#c" ∧
      substitute "#ab##a#c" ["ab", "a"] ["é#a", "#ab"] = "é#a##ab#c" := by
  intro pairs
  have hPerm : pairs.Perm pairs.reverse := (List.reverse_perm pairs).symm
  have hDistinct : (pairs.map Prod.fst).Nodup := by decide
  have hText : substitute "#ab##a#c" ["a", "ab"] ["#ab", "é#a"] = "é#a##ab#c" := by decide +kernel
  refine ⟨hPerm, hDistinct, hText, ?_⟩
  rw [← hText]
  exact (substitution_simultaneous.2.2 "#ab##a#c" pairs pairs.reverse hPerm hDistinct).symm

end MacroMarkup
