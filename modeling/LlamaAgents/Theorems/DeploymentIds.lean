import LlamaAgents.ControlPlane.DeploymentIds

/-!
# Generated deployment ids

Every id that is picked for a display name passes the operator's check and was reported as free. It is no reserved route name
either, unless rewriting the display name gives one although the display name itself is none.
-/

namespace LlamaAgents

namespace DeploymentIdsAux

/-- The characters of an id. -/
def IsIdText (text : List Char) : Prop := ∀ c ∈ text, isLabelLetter c = true ∨ isLabelDigit c = true ∨ c = '-'

/-- A text of letters, digits and hyphens that starts with a letter, does not end with a hyphen and is not too long is a label. -/
theorem isValidDNS1035Label_of {c : Char} {rest : List Char} (hc : isLabelLetter c = true) (hrest : IsIdText rest)
    (hlast : rest.getLast? ≠ some '-') (hlength : (c :: rest).length ≤ 63) :
    isValidDNS1035Label (String.ofList (c :: rest)) = true := by
  have htext : ∀ d ∈ c :: rest, (isLabelLetter d || isLabelDigit d || d == '-') = true := by
    intro d hd
    rcases List.mem_cons.1 hd with rfl | hd
    · simp [hc]
    · rcases hrest d hd with h | h | h <;> simp [h]
  have hend : (c :: rest).getLast?.all (fun d => isLabelLetter d || isLabelDigit d) = true := by
    cases rest with
    | nil => simp [hc]
    | cons d rest =>
      rw [List.getLast?_cons_cons]
      cases hd : (d :: rest).getLast? with
      | none => rfl
      | some e =>
        rw [hd] at hlast
        rcases hrest e (List.mem_of_getLast? hd) with h | h | rfl
        · simp [h]
        · simp [h]
        · exact absurd rfl hlast
  unfold isValidDNS1035Label
  rw [String.toList_ofList]
  simp only [Bool.and_eq_true, decide_eq_true_eq]
  exact ⟨⟨⟨⟨rfl, hlength⟩, List.all_eq_true.2 htext⟩, hc⟩, hend⟩

/-! ## Suffixes -/

theorem hexDigit_spec {i : Nat} (hi : i < 16) :
    (isLabelLetter (hexDigit i) = true ∨ isLabelDigit (hexDigit i) = true) ∧ hexDigit i ≠ '-' := by
  revert i
  decide

theorem hexDigit_letter {i : Nat} (hi : i < 6) : isLabelLetter (hexDigit (10 + i)) = true := by
  revert i
  decide

/-- A hexadecimal digit as it is drawn. -/
abbrev drawn (i : Fin 16) : Char := hexDigit i

theorem isIdText_drawn (l : List (Fin 16)) : IsIdText (l.map drawn) := by
  intro c hc
  obtain ⟨i, -, rfl⟩ := List.mem_map.1 hc
  exact (hexDigit_spec i.isLt).1.imp_right Or.inl

theorem getLast?_drawn (l : List (Fin 16)) : (l.map drawn).getLast? ≠ some '-' := by
  intro h
  obtain ⟨i, -, hi⟩ := List.mem_map.1 (List.mem_of_getLast? h)
  exact (hexDigit_spec i.isLt).2 hi

/-- What an id is made of before it gets a suffix. -/
structure IsBase (base : List Char) : Prop where
  text : IsIdText base
  head : ∀ c, base.head? = some c → isLabelLetter c = true
  last : base.getLast? ≠ some '-'
  length : base.length ≤ 63

theorem IsBase.valid {base : List Char} (h : IsBase base) (hne : base ≠ []) : isValidDNS1035Label (String.ofList base) = true := by
  cases base with
  | nil => exact absurd rfl hne
  | cons c rest =>
    refine isValidDNS1035Label_of (h.head c rfl) (fun d hd => h.text d (List.mem_cons_of_mem c hd)) ?_ h.length
    cases rest with
    | nil => simp
    | cons d rest => exact List.getLast?_cons_cons ▸ h.last

theorem appendRandomSuffix_valid (draw : SuffixDraw) {base : List Char} (h : IsBase base) :
    isValidDNS1035Label (String.ofList (appendRandomSuffix draw base 63)) = true := by
  cases base with
  | nil =>
    have hall : List.ofFn draw.digits = draw.digits 0 :: (List.ofFn fun i : Fin 4 => draw.digits i.succ) := List.ofFn_succ
    have hlater := isIdText_drawn (List.ofFn fun i : Fin 4 => draw.digits i.succ)
    have hlast := getLast?_drawn (List.ofFn fun i : Fin 4 => draw.digits i.succ)
    simp only [appendRandomSuffix, List.isEmpty_nil, if_true, hall]
    split
    · exact isValidDNS1035Label_of (hexDigit_letter draw.letter.isLt) hlater hlast (by simp)
    · case isFalse hdigit =>
      have hletter := (hexDigit_spec (draw.digits 0).isLt).1.resolve_right hdigit
      exact isValidDNS1035Label_of hletter hlater hlast (by simp)
  | cons c rest =>
    have heq : appendRandomSuffix draw (c :: rest) 63 = c :: (rest.take 56 ++ '-' :: (List.ofFn draw.digits).map drawn) := rfl
    rw [heq]
    refine isValidDNS1035Label_of (h.head c rfl) ?_ ?_ ?_
    · intro d hd
      rcases List.mem_append.1 hd with hd | hd
      · exact h.text d (List.mem_cons_of_mem c (List.mem_of_mem_take hd))
      · rcases List.mem_cons.1 hd with rfl | hd
        · exact Or.inr (Or.inr rfl)
        · exact isIdText_drawn _ d hd
    · rw [List.getLast?_append_of_ne_nil _ (List.cons_ne_nil _ _), List.ofFn_succ, List.map_cons, List.getLast?_cons_cons]
      exact getLast?_drawn (draw.digits 0 :: _)
    · simp only [List.length_cons, List.length_append, List.length_map, List.length_ofFn, List.length_take]
      omega

/-- No reserved name looks like an id with a suffix. -/
theorem appendRandomSuffix_notMem (draw : SuffixDraw) (base : List Char) :
    appendRandomSuffix draw base 63 ∉ reservedDeploymentIds := by
  have hshape : (appendRandomSuffix draw base 63).length = 5 ∨ (appendRandomSuffix draw base 63).reverse[5]? = some '-' := by
    cases base with
    | nil =>
      left
      simp only [appendRandomSuffix, List.isEmpty_nil, if_true, List.ofFn_succ]
      split <;> simp
    | cons c rest =>
      right
      simp [appendRandomSuffix, List.ofFn_succ]
  intro hmem
  have hreserved : ∀ id ∈ reservedDeploymentIds, id.length ≠ 5 ∧ id.reverse[5]? ≠ some '-' := by decide
  exact hshape.elim (hreserved _ hmem).1 (hreserved _ hmem).2

/-! ## The id before a suffix -/

theorem mem_of_mem_collapseHyphens {c : Char} (text : List Char) (h : c ∈ collapseHyphens text) : c ∈ text := by
  fun_induction collapseHyphens text with
  | case1 rest ih => exact List.mem_cons_of_mem _ (ih h)
  | case2 d rest _ ih => exact (List.mem_cons.1 h).elim (fun heq => heq ▸ List.mem_cons_self) fun h => List.mem_cons_of_mem d (ih h)
  | case3 => exact h

theorem trimFirst_suffix (text : List Char) : trimFirst text <:+ text := by
  unfold trimFirst
  split
  · exact List.tail_suffix text
  · exact List.suffix_refl text

theorem trimLast_front (text : List Char) : trimLast text <+: text := by
  unfold trimLast
  split
  · exact List.dropLast_prefix text
  · exact List.prefix_refl text

/-- What a text starts with, its first parts start with. -/
theorem head?_of_isPrefix {a b : List Char} (h : a <+: b) {c : Char} (hc : a.head? = some c) : b.head? = some c := by
  obtain ⟨t, rfl⟩ := h
  rw [List.head?_append, hc]
  rfl

theorem startWithLetter_spec {text : List Char} (h : IsIdText text) :
    IsIdText (startWithLetter text) ∧ ∀ c, (startWithLetter text).head? = some c → isLabelLetter c = true := by
  unfold startWithLetter
  split
  · refine ⟨?_, fun c hc => Option.some.inj hc ▸ by decide⟩
    intro c hc
    rcases List.mem_cons.1 hc with rfl | hc
    · exact Or.inl (by decide)
    · rcases List.mem_cons.1 hc with rfl | hc
      · exact Or.inr (Or.inr rfl)
      · exact h c hc
  · case isFalse hno =>
    refine ⟨h, fun c hc => ?_⟩
    rw [hc, Option.any_some] at hno
    simpa using hno

theorem baseDeploymentId_isBase (lower : List Char → List Char) (name : List Char) : IsBase (baseDeploymentId lower name) := by
  have hchars : IsIdText ((lower name).map fun c => if isLabelLetter c || isLabelDigit c then c else '-') := by
    intro c hc
    obtain ⟨d, -, rfl⟩ := List.mem_map.1 hc
    split
    · case isTrue h => exact ((Bool.or_eq_true _ _).mp h).imp_right Or.inl
    · exact Or.inr (Or.inr rfl)
  unfold baseDeploymentId
  dsimp only
  generalize (lower name).map _ = text at hchars ⊢
  have htext : IsIdText (trimLast (trimFirst (collapseHyphens text))) := fun c hc =>
    hchars c (mem_of_mem_collapseHyphens text ((trimFirst_suffix _).subset ((trimLast_front _).subset hc)))
  obtain ⟨htext, hhead⟩ := startWithLetter_spec htext
  generalize startWithLetter _ = id at htext hhead ⊢
  have hcut : (id.take 63).rdropWhile (· = '-') <+: id.take 63 := List.rdropWhile_prefix _ _
  have hsub : (id.take 63).rdropWhile (· = '-') <+: id := hcut.trans (List.take_prefix 63 id)
  refine ⟨fun c hc => htext c (hsub.subset hc), fun c hc => hhead c (head?_of_isPrefix hsub hc), fun hlast => ?_,
    hcut.length_le.trans (List.length_take_le 63 id)⟩
  have hne : (id.take 63).rdropWhile (· = '-') ≠ [] := fun hnil => by simp [hnil] at hlast
  have hnot := List.rdropWhile_last_not (fun c : Char => decide (c = '-')) (id.take 63) hne
  rw [List.getLast?_eq_some_getLast hne, Option.some.injEq] at hlast
  simp [hlast] at hnot

/-! ## The search -/

/-- An id that is found was reported as free, and is the first one that was tried, which was free at once, or one with a suffix. -/
theorem findFreeId_ok {available : Nat → List Char → Bool} {draws : Nat → SuffixDraw} {base : List Char} {rounds i : Nat}
    {id found : List Char} (h : findFreeId available draws base rounds i id = .ok found) :
    (∃ j, available j found = true) ∧ (found = id ∧ available i id = true ∨ ∃ j, found = appendRandomSuffix (draws j) base 63) := by
  induction rounds generalizing i id with
  | zero => cases h
  | succ rounds ih =>
    rw [findFreeId] at h
    split at h
    · case isTrue hfree =>
      cases h
      exact ⟨⟨i, hfree⟩, Or.inl ⟨rfl, hfree⟩⟩
    · obtain ⟨hfree, hfound⟩ := ih h
      exact ⟨hfree, Or.inr (hfound.elim (fun heq => ⟨i + 1, heq.1⟩) fun hj => hj)⟩

end DeploymentIdsAux

open DeploymentIdsAux

/-- Whatever the display name, the random draws and the answers about availability: an id that is picked for a new deployment without
an explicit id is a DNS-1035 label of at most 63 characters that passes the operator's check, and was reported as free. It is a reserved
route name exactly when the display name is rewritten to one that is free at once, without being one when it is lower-cased. -/
theorem generated_id_valid (lower : List Char → List Char) (available : Nat → List Char → Bool) (draws : Nat → SuffixDraw)
    (displayName id : List Char) (h : selectDeploymentId lower available draws displayName none = .ok id) :
    isValidDNS1035Label (String.ofList id) = true ∧ id.length ≤ 63 ∧ (∃ i, available i id = true) ∧
      (id ∉ reservedDeploymentIds ↔ (baseDeploymentId lower displayName ∈ reservedDeploymentIds →
        lower displayName ∈ reservedDeploymentIds ∨ available 0 (baseDeploymentId lower displayName) = false)) := by
  have hbase := baseDeploymentId_isBase lower displayName
  obtain ⟨hfree, hid⟩ := findFreeId_ok h
  have hshape : (id = baseDeploymentId lower displayName ∧ 3 ≤ (baseDeploymentId lower displayName).length ∧
      lower displayName ∉ reservedDeploymentIds ∧ available 0 (baseDeploymentId lower displayName) = true) ∨
      ∃ j, id = appendRandomSuffix (draws j) (baseDeploymentId lower displayName) 63 := by
    rcases hid with ⟨hid, hfirst⟩ | hid
    · split at hid
      · exact Or.inr ⟨0, hid⟩
      · case isFalse hplain =>
        rw [if_neg hplain] at hfirst
        simp only [Bool.or_eq_true, decide_eq_true_eq, not_or, List.contains_iff_mem, not_lt] at hplain
        exact Or.inl ⟨hid, hplain.1, hplain.2, hfirst⟩
    · exact Or.inr hid
  have hvalid : isValidDNS1035Label (String.ofList id) = true := by
    rcases hshape with ⟨rfl, hlong, -⟩ | ⟨j, rfl⟩
    · exact hbase.valid fun hnil => by simp [hnil] at hlong
    · exact appendRandomSuffix_valid _ hbase
  have hlength : id.length ≤ 63 := by
    have hchecked := hvalid
    simp only [isValidDNS1035Label, String.toList_ofList, Bool.and_eq_true, decide_eq_true_eq] at hchecked
    exact hchecked.1.1.1.2
  refine ⟨hvalid, hlength, hfree, fun hplain hmem => ?_, fun hname => ?_⟩
  · by_contra hcontra
    obtain ⟨hlower, hfirst⟩ := not_or.1 hcontra
    have hlong : ∀ name ∈ reservedDeploymentIds, ¬name.length < 3 := by decide
    have hpicked : selectDeploymentId lower available draws displayName none = .ok (baseDeploymentId lower displayName) := by
      have hnot : (decide ((baseDeploymentId lower displayName).length < 3) || reservedDeploymentIds.contains (lower displayName)) =
          false := by simp [hlong _ hmem, hlower]
      unfold selectDeploymentId findDeploymentId
      dsimp only
      rw [hnot, if_neg Bool.false_ne_true, findFreeId, if_pos (Bool.not_eq_false _ ▸ hfirst)]
    exact hplain (Except.ok.inj (hpicked.symm.trans h) ▸ hmem)
  · rcases hshape with ⟨rfl, -, hlower, hfirst⟩ | ⟨j, rfl⟩
    · intro hmem
      rcases hname hmem with h | h
      · exact hlower h
      · exact Bool.false_ne_true (h.symm.trans hfirst)
    · exact appendRandomSuffix_notMem _ _

namespace SpacedName

/-- Lower-casing of ASCII texts. -/
def lower (text : List Char) : List Char := text.map Char.toLower

/-- The draws do not matter. -/
def draws (_ : Nat) : SuffixDraw := ⟨fun _ => 0, 0⟩

end SpacedName

open SpacedName in
/-- A display name whose id is reserved but taken gets an id with a suffix. -/
theorem generated_id_valid_taken : ∃ id,
    selectDeploymentId lower (fun i _ => decide (i = 1)) draws "List Projects".toList none = .ok id ∧ id ∉ reservedDeploymentIds :=
  ⟨_, rfl, (generated_id_valid lower (fun i _ => decide (i = 1)) draws "List Projects".toList _ rfl).2.2.2.2 fun _ => .inr rfl⟩

open SpacedName in
/-- The display name `List Projects` is not reserved, and its id is. -/
theorem generated_id_valid_false : ¬ ∀ (lower : List Char → List Char) (available : Nat → List Char → Bool) (draws : Nat → SuffixDraw)
    (displayName id : List Char), selectDeploymentId lower available draws displayName none = .ok id →
      isValidDNS1035Label (String.ofList id) = true ∧ id.length ≤ 63 ∧ (∃ i, available i id = true) ∧ id ∉ reservedDeploymentIds := by
  intro h
  have hid := h lower (fun _ _ => true) draws "List Projects".toList "list-projects".toList rfl
  exact hid.2.2.2 (by decide)

end LlamaAgents
