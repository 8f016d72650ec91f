import Mathlib.Data.List.DropRight

/-!
# URIs

The generic syntax of URIs on texts as lists of characters: the parts of a URI, and the removal of dot segments from a path that
starts with a slash.
-/

namespace Lib

/-- The parts of a URI. Its query and its fragment are left out. -/
structure Uri where
  scheme : Option (List Char)
  authority : Option (List Char)
  path : List Char

/-- The segments of a path. -/
abbrev segments (path : List Char) : List (List Char) := path.splitOn '/'

/-- The path of some segments. -/
abbrev joinSegments (l : List (List Char)) : List Char := ['/'].intercalate l

namespace Uri

/-- Whether a character ends the scheme. -/
def endsScheme (c : Char) : Bool := c = ':' || c = '/' || c = '?' || c = '#'

/-- Whether a character ends the authority. -/
def endsAuthority (c : Char) : Bool := c = '/' || c = '?' || c = '#'

/-- Whether a character ends the path. -/
def endsPath (c : Char) : Bool := c = '?' || c = '#'

/-- The scheme of a text and what follows it. -/
def splitScheme (text : List Char) : Option (List Char) × List Char :=
  match text.takeWhile (fun c => !endsScheme c), text.dropWhile (fun c => !endsScheme c) with
  | c :: name, ':' :: rest => (some (c :: name), rest)
  | _, _ => (none, text)

/-- The authority of a text without a scheme and what follows it. -/
def splitAuthority : List Char → Option (List Char) × List Char
  | '/' :: '/' :: rest => (some (rest.takeWhile fun c => !endsAuthority c), rest.dropWhile fun c => !endsAuthority c)
  | text => (none, text)

/-- The part of a text before its query and its fragment. -/
def pathPart (text : List Char) : List Char := text.takeWhile fun c => !endsPath c

/-- The parts of a text. -/
def parse (text : List Char) : Uri :=
  let s := splitScheme text
  let a := splitAuthority s.2
  ⟨s.1, a.1, pathPart a.2⟩

end Uri

/-- Where a segment leads from the segments in `out`, whose last is first. -/
def follow (out : List (List Char)) (s : List Char) : List (List Char) :=
  if s = ['.'] then out else if s = ['.', '.'] then out.tail else s :: out

/-- The segments that are left when the dot segments are removed, after those in `out`, whose last is first. -/
def resolveDots : List (List Char) → List (List Char) → List (List Char)
  | out, [] => out.reverse
  | out, [s] => (if s = ['.'] ∨ s = ['.', '.'] then [] :: follow out s else follow out s).reverse
  | out, s :: rest => resolveDots (follow out s) rest

/-- Whether segments lead above their start, from those in `out` below it. -/
def stepsAbove : List (List Char) → List (List Char) → Bool
  | _, [] => false
  | out, s :: rest => (out.isEmpty && s = ['.', '.']) || stepsAbove (follow out s) rest

/-- The removal of dot segments from a path that starts with a slash. -/
def removeDotSegments : List Char → List Char
  | '/' :: rest => '/' :: joinSegments (resolveDots [] (segments rest))
  | path => path

/-! ## Parsing -/

namespace Uri

/-- How a text with an authority starts. -/
inductive Starts : List Char → Option (List Char) → Prop
  | plain : Starts ['/', '/'] none
  | scheme {c : Char} {name : List Char} (h : ∀ x ∈ c :: name, endsScheme x = false) :
      Starts ((c :: name) ++ [':', '/', '/']) (some (c :: name))

theorem Starts.endsPath {start : List Char} {s : Option (List Char)} (h : Starts start s) : ∀ c ∈ start, Uri.endsPath c = false := by
  intro x hx
  cases h with
  | plain =>
    obtain rfl : x = '/' := by simpa using hx
    decide
  | scheme hname =>
    rcases List.mem_append.1 hx with hx | hx
    · have := hname x hx
      simp_all [endsScheme, Uri.endsPath]
    · have : x = ':' ∨ x = '/' := by simpa using hx
      rcases this with rfl | rfl
      · decide
      · decide

theorem parse_starts {start : List Char} {s : Option (List Char)} (h : Starts start s) (r : List Char) : parse (start ++ r) =
    ⟨s, some (r.takeWhile fun c => !endsAuthority c), pathPart (r.dropWhile fun c => !endsAuthority c)⟩ := by
  cases h with
  | plain => rfl
  | @scheme c name hname =>
    have hkeep : ∀ x ∈ c :: name, (!endsScheme x) = true := fun x hx => by rw [hname x hx]; rfl
    have hsplit : splitScheme ((c :: name) ++ [':', '/', '/'] ++ r) = (some (c :: name), '/' :: '/' :: r) := by
      rw [splitScheme, List.append_assoc, List.takeWhile_append_of_pos hkeep, List.dropWhile_append_of_pos hkeep]
      simp [endsScheme]
    rw [parse, hsplit]
    rfl

/-- A text with an authority starts like one. -/
theorem exists_starts {text a : List Char} (h : (parse text).authority = some a) : ∃ start s r, Starts start s ∧ text = start ++ r := by
  have hrest : ∃ r, (splitScheme text).2 = '/' :: '/' :: r := by
    unfold parse splitAuthority at h
    dsimp only at h
    split at h
    · case h_1 r heq => exact ⟨r, heq⟩
    · cases h
  obtain ⟨r, hr⟩ := hrest
  unfold splitScheme at hr
  split at hr
  · case h_1 c name rest hname hrest =>
    cases hr
    have hends : ∀ x ∈ c :: name, endsScheme x = false := by
      intro x hx
      have hends := List.mem_takeWhile_imp (p := fun c => !endsScheme c) (hname ▸ hx)
      simpa using hends
    refine ⟨_, _, r, .scheme hends, ?_⟩
    · rw [← List.takeWhile_append_dropWhile (p := fun c => !endsScheme c) (l := text), hname, hrest]
      simp
  · exact ⟨_, _, r, .plain, hr⟩

/-- What is dropped from the end is dropped from the last part. -/
theorem rdropWhile_append {f : Char → Bool} {l : List Char} (hl : ∀ x, l.getLast? = some x → f x = false) (p : List Char) :
    (l ++ p).rdropWhile f = l ++ p.rdropWhile f := by
  induction p using List.reverseRecOn with
  | nil =>
    rw [List.append_nil, List.rdropWhile_nil, List.append_nil, List.rdropWhile_eq_self_iff]
    intro h hx
    rw [hl _ (List.getLast?_eq_some_getLast h)] at hx
    cases hx
  | append_singleton p x ih =>
    rw [← List.append_assoc, List.rdropWhile_concat, List.rdropWhile_concat]
    split
    · exact ih
    · rw [List.append_assoc]

theorem takeWhile_dropWhile_append {f : Char → Bool} {a : List Char} (ha : ∀ x ∈ a, f x = true) {c : Char} (hc : f c = false)
    (q : List Char) : (a ++ c :: q).takeWhile f = a ∧ (a ++ c :: q).dropWhile f = c :: q := by
  rw [List.takeWhile_append_of_pos ha, List.dropWhile_append_of_pos ha]
  simp [hc]

theorem pathPart_append {p : List Char} (hp : ∀ c ∈ p, endsPath c = false) (t : List Char) : pathPart (p ++ t) = p ++ pathPart t :=
  List.takeWhile_append_of_pos fun c hc => by rw [hp c hc]; rfl

/-- The path ends where a query or a fragment starts. -/
theorem pathPart_ends {c : Char} (hc : endsPath c = true) (p q : List Char) : pathPart (p ++ c :: q) = pathPart p := by
  induction p with
  | nil => simp [pathPart, hc]
  | cons d p ih =>
    unfold pathPart at ih ⊢
    rw [List.cons_append, List.takeWhile_cons, List.takeWhile_cons, ih]

/-- Where the authority of a URI ends, and what a text put after the URI makes of the rest. -/
theorem parse_append {text a : List Char} (ha : (parse text).authority = some a) (hne : a ≠ []) :
    ∃ front p, text = front ++ p ∧ (∀ c ∈ front, endsPath c = false) ∧ (∀ c, p.head? = some c → endsAuthority c = true) ∧
      (parse text).path = pathPart p ∧
      ∀ tail, parse (text.rdropWhile (· = '/') ++ '/' :: tail) =
        ⟨(parse text).scheme, some a, pathPart (p.rdropWhile (· = '/') ++ '/' :: tail)⟩ := by
  obtain ⟨start, s, r, hstart, rfl⟩ := exists_starts ha
  rw [parse_starts hstart] at ha ⊢
  have hkeep : ∀ x ∈ r.takeWhile fun c => !endsAuthority c, (!endsAuthority x) = true :=
    fun x hx => List.mem_takeWhile_imp (p := fun c => !endsAuthority c) hx
  have hhead : ∀ c, (r.dropWhile fun c => !endsAuthority c).head? = some c → endsAuthority c = true := by
    intro c hc
    have hends := List.head?_dropWhile_not (fun c => !endsAuthority c) r
    rw [hc] at hends
    simpa using hends
  have hr := List.takeWhile_append_dropWhile (p := fun c => !endsAuthority c) (l := r)
  rw [Option.some.inj ha] at hkeep hr
  dsimp only
  generalize r.dropWhile _ = p at hhead hr ⊢
  subst hr
  have hfront : ∀ c ∈ start ++ a, endsPath c = false := by
    intro c hc
    rcases List.mem_append.1 hc with hc | hc
    · exact hstart.endsPath c hc
    · have := hkeep c hc
      simp_all [endsAuthority, endsPath]
  refine ⟨start ++ a, p, (List.append_assoc _ _ _).symm, hfront, hhead, rfl, fun tail => ?_⟩
  have hlast : ∀ x, (start ++ a).getLast? = some x → decide (x = '/') = false := by
    intro x hx
    rw [List.getLast?_append_of_ne_nil _ hne] at hx
    have hx := hkeep x (List.mem_of_getLast? hx)
    rw [decide_eq_false_iff_not]
    rintro rfl
    exact absurd hx (by decide)
  obtain ⟨c, q, hq, hc⟩ : ∃ c q, p.rdropWhile (· = '/') ++ '/' :: tail = c :: q ∧ (!endsAuthority c) = false := by
    cases hp : p.rdropWhile (· = '/') with
    | nil => exact ⟨'/', tail, rfl, by decide⟩
    | cons c q =>
      obtain ⟨t, ht⟩ := hp ▸ List.rdropWhile_prefix (· = '/') p
      exact ⟨c, q ++ '/' :: tail, rfl, by rw [hhead c (by rw [← ht]; rfl)]; rfl⟩
  obtain ⟨htake, hdrop⟩ := takeWhile_dropWhile_append hkeep hc q
  rw [← List.append_assoc, rdropWhile_append hlast, List.append_assoc, List.append_assoc, parse_starts hstart, hq, htake, hdrop]

/-- The path of a URI with an authority is empty or starts with a slash. -/
theorem path_slash {text a : List Char} (ha : (parse text).authority = some a) (hne : a ≠ []) :
    (parse text).path = [] ∨ ∃ q, (parse text).path = '/' :: q := by
  obtain ⟨-, p, -, -, hhead, hpath, -⟩ := parse_append ha hne
  rw [hpath]
  cases p with
  | nil => exact .inl rfl
  | cons c p =>
    have hc : c = '/' ∨ endsPath c = true := by simpa [endsAuthority, endsPath, or_assoc] using hhead c rfl
    rcases hc with rfl | hc
    · exact .inr ⟨pathPart p, rfl⟩
    · exact .inl (by simp [pathPart, hc])

/-- A path put after a URI with an authority, and without a query or a fragment, is put after its path. -/
theorem parse_append_plain {text a : List Char} (ha : (parse text).authority = some a) (hne : a ≠ [])
    (hplain : ∀ c ∈ text, endsPath c = false) (tail : List Char) : parse (text.rdropWhile (· = '/') ++ '/' :: tail) =
      ⟨(parse text).scheme, some a, (parse text).path.rdropWhile (· = '/') ++ '/' :: pathPart tail⟩ := by
  obtain ⟨front, p, htext, -, -, hpath, happend⟩ := parse_append ha hne
  have hp : ∀ c ∈ p, endsPath c = false := fun c hc => hplain c (htext ▸ List.mem_append_right _ hc)
  have hwhole : pathPart p = p := by simpa [pathPart] using pathPart_append hp []
  have hcut : ∀ c ∈ p.rdropWhile (· = '/'), endsPath c = false := fun c hc => hp c ((List.rdropWhile_prefix _ p).subset hc)
  rw [happend, hpath, hwhole, pathPart_append hcut]
  rfl

/-- What is put after a URI with a query or a fragment leaves its path as it is. -/
theorem path_append_query {text a : List Char} (ha : (parse text).authority = some a) (hne : a ≠ [])
    (hquery : ¬∀ c ∈ text, endsPath c = false) (tail : List Char) :
    (parse (text.rdropWhile (· = '/') ++ '/' :: tail)).path = (parse text).path := by
  obtain ⟨front, p, rfl, hfront, -, hpath, happend⟩ := parse_append ha hne
  have hp : ∃ c ∈ p, endsPath c = true := by
    by_contra hall
    simp only [not_exists, not_and, Bool.not_eq_true] at hall
    exact hquery fun c hc => (List.mem_append.1 hc).elim (hfront c) (hall c)
  obtain ⟨c, hc, hends⟩ := hp
  obtain ⟨before, after, rfl⟩ := List.append_of_mem hc
  have hcut : ∀ x, (before ++ [c]).getLast? = some x → decide (x = '/') = false := by
    intro x hx
    obtain rfl : c = x := by simpa using hx
    rw [decide_eq_false_iff_not]
    rintro rfl
    cases hends
  calc (parse ((front ++ (before ++ c :: after)).rdropWhile (· = '/') ++ '/' :: tail)).path
      = pathPart ((before ++ c :: after).rdropWhile (· = '/') ++ '/' :: tail) := by rw [happend]
    _ = pathPart (before ++ c :: (after.rdropWhile (· = '/') ++ '/' :: tail)) := by
      rw [List.append_cons before, rdropWhile_append hcut]
      simp
    _ = pathPart (before ++ c :: after) := by rw [pathPart_ends hends, pathPart_ends hends]
    _ = (parse (front ++ (before ++ c :: after))).path := hpath.symm

end Uri

/-! ## Segments -/

theorem segments_append (p q : List Char) : segments (p ++ '/' :: q) = segments p ++ segments q :=
  List.splitOnP_append_cons p q (by decide)

theorem segments_ne_nil (p : List Char) : segments p ≠ [] := List.splitOnP_ne_nil _ p

theorem joinSegments_segments (p : List Char) : joinSegments (segments p) = p := List.intercalate_splitOn '/'

theorem joinSegments_append {l l' : List (List Char)} (h : l ≠ []) (h' : l' ≠ []) :
    joinSegments (l ++ l') = joinSegments l ++ '/' :: joinSegments l' := by
  induction l with
  | nil => exact absurd rfl h
  | cons s l ih =>
    cases l with
    | nil => simp [joinSegments, List.intercalate_cons_of_ne_nil h', List.intercalate_singleton]
    | cons t l =>
      have hlater := ih (List.cons_ne_nil t l)
      simp only [joinSegments, List.cons_append] at hlater ⊢
      rw [List.intercalate_cons_of_ne_nil (List.cons_ne_nil _ _), List.intercalate_cons_of_ne_nil (List.cons_ne_nil _ _), hlater]
      simp

/-- A text without dot segments. -/
def NoDots (path : List Char) : Prop := ∀ s ∈ segments path, s ≠ ['.'] ∧ s ≠ ['.', '.']

theorem resolveDots_cons (out : List (List Char)) (s : List Char) {rest : List (List Char)} (hrest : rest ≠ []) :
    resolveDots out (s :: rest) = resolveDots (follow out s) rest := by
  obtain ⟨t, rest, rfl⟩ := List.exists_cons_of_ne_nil hrest
  rw [resolveDots]
  exact hrest

/-- Segments that are no dots are kept. -/
theorem resolveDots_append {l rest out : List (List Char)} (hl : ∀ s ∈ l, s ≠ ['.'] ∧ s ≠ ['.', '.']) (hrest : rest ≠ []) :
    resolveDots out (l ++ rest) = resolveDots (l.reverse ++ out) rest := by
  induction l generalizing out with
  | nil => rfl
  | cons s l ih =>
    obtain ⟨⟨hdot, hdots⟩, hl⟩ := List.forall_mem_cons.1 hl
    rw [List.cons_append, resolveDots_cons out s (List.append_ne_nil_of_right_ne_nil l hrest), ih hl, follow, if_neg hdot, if_neg hdots]
    simp

/-- A segment that does not lead above the start leaves what stands above it. -/
theorem follow_append {out : List (List Char)} {s : List Char} (h : (out.isEmpty && decide (s = ['.', '.'])) = false)
    (base : List (List Char)) : follow (out ++ base) s = follow out s ++ base := by
  unfold follow
  split
  · rfl
  · split
    · case isTrue hdots =>
      cases out with
      | nil => simp [hdots] at h
      | cons t out => rfl
    · rfl

/-- Segments that never lead above their start leave what stands above it, and something follows. -/
theorem resolveDots_extends {rest out base : List (List Char)} (hrest : rest ≠ []) (hstays : stepsAbove out rest = false) :
    ∃ more, more ≠ [] ∧ resolveDots (out ++ base) rest = base.reverse ++ more := by
  induction rest generalizing out with
  | nil => exact absurd rfl hrest
  | cons s rest ih =>
    obtain ⟨hs, hstays⟩ := Bool.or_eq_false_iff.1 hstays
    cases rest with
    | nil =>
      rw [resolveDots, follow_append hs]
      split
      · exact ⟨(follow out s).reverse ++ [[]], by simp, by simp⟩
      · case isFalse hdots =>
        obtain ⟨hdot, hdots⟩ := not_or.1 hdots
        refine ⟨(follow out s).reverse, ?_, List.reverse_append⟩
        rw [follow, if_neg hdot, if_neg hdots]
        simp
    | cons t rest =>
      rw [resolveDots_cons _ _ (List.cons_ne_nil t rest), follow_append hs]
      exact ih (List.cons_ne_nil t rest) hstays

/-- Segments that lead above their start lead to the same place from every directory at the top. -/
theorem resolveDots_above {rest out : List (List Char)} (habove : stepsAbove out rest = true) (s s' : List Char) :
    resolveDots (out ++ [s]) rest = resolveDots (out ++ [s']) rest := by
  induction rest generalizing out with
  | nil => cases habove
  | cons t rest ih =>
    rw [stepsAbove] at habove
    cases ht : out.isEmpty && decide (t = ['.', '.']) with
    | true =>
      obtain ⟨hout, hdots⟩ : out = [] ∧ t = ['.', '.'] := by simpa using ht
      cases rest with
      | nil => simp [resolveDots, follow, hout, hdots]
      | cons u rest => simp [resolveDots, follow, hout, hdots]
    | false =>
      rw [ht, Bool.false_or] at habove
      cases rest with
      | nil => cases habove
      | cons u rest =>
        rw [resolveDots_cons _ _ (List.cons_ne_nil u rest), resolveDots_cons _ _ (List.cons_ne_nil u rest), follow_append ht,
          follow_append ht]
        exact ih habove

/-- Whatever is left was there or is among the segments, or empty, and is no dot segment. -/
theorem mem_resolveDots {rest out : List (List Char)} {s : List Char} (h : s ∈ resolveDots out rest) :
    s ∈ out ∨ s = [] ∨ (s ∈ rest ∧ s ≠ ['.'] ∧ s ≠ ['.', '.']) := by
  have hfollow : ∀ (out : List (List Char)) (t : List Char), s ∈ follow out t → s ∈ out ∨ (s = t ∧ t ≠ ['.'] ∧ t ≠ ['.', '.']) := by
    intro out t hs
    unfold follow at hs
    split at hs
    · exact .inl hs
    · split at hs
      · exact .inl (List.mem_of_mem_tail hs)
      · rcases List.mem_cons.1 hs with rfl | hs
        · exact .inr ⟨rfl, ‹_›, ‹_›⟩
        · exact .inl hs
  induction rest generalizing out with
  | nil => exact .inl (List.mem_reverse.1 h)
  | cons t rest ih =>
    have hstep : s ∈ follow out t ∨ s = [] ∨ (s ∈ rest ∧ s ≠ ['.'] ∧ s ≠ ['.', '.']) := by
      cases rest with
      | nil =>
        rw [resolveDots, List.mem_reverse] at h
        split at h
        · rcases List.mem_cons.1 h with hs | hs
          · exact .inr (.inl hs)
          · exact .inl hs
        · exact .inl h
      | cons u rest => exact ih (resolveDots_cons out t (List.cons_ne_nil u rest) ▸ h)
    rcases hstep with hs | hs | ⟨hs, hdot⟩
    · rcases hfollow out t hs with hs | ⟨rfl, hdot⟩
      · exact .inl hs
      · exact .inr (.inr ⟨List.mem_cons_self, hdot⟩)
    · exact .inr (.inl hs)
    · exact .inr (.inr ⟨List.mem_cons_of_mem _ hs, hdot⟩)

theorem resolveDots_ne_nil {rest out : List (List Char)} (h : rest ≠ []) : resolveDots out rest ≠ [] := by
  induction rest generalizing out with
  | nil => exact absurd rfl h
  | cons s rest ih =>
    cases rest with
    | nil =>
      rw [resolveDots, follow]
      split
      · simp
      · simp_all
    | cons t rest =>
      rw [resolveDots_cons _ _ (List.cons_ne_nil t rest)]
      exact ih (List.cons_ne_nil t rest)

theorem slash_notMem_segments (p : List Char) : ∀ s ∈ segments p, '/' ∉ s := by
  induction p with
  | nil => simp [segments]
  | cons c p ih =>
    intro s hs
    rw [segments, List.splitOn_cons_eq_if_modifyHead] at hs
    obtain ⟨t, l, hl⟩ := List.exists_cons_of_ne_nil (List.splitOn_ne_nil '/' p)
    rw [segments] at ih
    rw [hl] at hs ih
    split at hs
    · rcases List.mem_cons.1 hs with rfl | hs
      · exact List.not_mem_nil
      · exact ih s hs
    · case isFalse hc =>
      rw [List.modifyHead_cons] at hs
      rcases List.mem_cons.1 hs with rfl | hs
      · intro hslash
        rcases List.mem_cons.1 hslash with rfl | hslash
        · exact hc (beq_self_eq_true _)
        · exact ih t List.mem_cons_self hslash
      · exact ih s (List.mem_cons_of_mem _ hs)

/-- No dot segment is left. -/
theorem noDots_removeDotSegments (rest : List Char) : NoDots (removeDotSegments ('/' :: rest)) := by
  have hmem : ∀ s ∈ resolveDots [] (segments rest), s = [] ∨ (s ∈ segments rest ∧ s ≠ ['.'] ∧ s ≠ ['.', '.']) :=
    fun s hs => (mem_resolveDots hs).resolve_left List.not_mem_nil
  have hsegments : segments (joinSegments (resolveDots [] (segments rest))) = resolveDots [] (segments rest) := by
    refine List.splitOn_intercalate '/' (fun s hs => ?_) (resolveDots_ne_nil (segments_ne_nil rest))
    rcases hmem s hs with rfl | ⟨hs, -⟩
    · exact List.not_mem_nil
    · exact slash_notMem_segments rest s hs
  intro s hs
  rw [removeDotSegments, ← List.nil_append ('/' :: _), segments_append, hsegments] at hs
  rcases List.mem_append.1 hs with hs | hs
  · obtain rfl : s = [] := by simpa [segments] using hs
    exact ⟨by simp, by simp⟩
  · rcases hmem s hs with rfl | ⟨-, hdot⟩
    · exact ⟨by simp, by simp⟩
    · exact hdot

/-- A path without dot segments stays as it is. -/
theorem removeDotSegments_of_noDots {p : List Char} (h : NoDots p) : removeDotSegments ('/' :: p) = '/' :: p := by
  obtain ⟨l, s, hl⟩ : ∃ l s, segments p = l ++ [s] := ⟨_, _, (List.dropLast_append_getLast (segments_ne_nil p)).symm⟩
  unfold NoDots at h
  rw [hl] at h
  obtain ⟨hdot, hdots⟩ := h s (List.mem_append_right _ List.mem_cons_self)
  rw [removeDotSegments, hl, resolveDots_append (fun t ht => h t (List.mem_append_left _ ht)) (List.cons_ne_nil s []), resolveDots,
    if_neg (not_or.2 ⟨hdot, hdots⟩), follow, if_neg hdot, if_neg hdots, List.append_nil, List.reverse_cons, List.reverse_reverse, ← hl,
    joinSegments_segments]

/-- The path below a path without dot segments stays below it, when it never leads above its start. -/
theorem isPrefix_removeDotSegments {base rest : List Char} (hbase : base = [] ∨ ∃ p, base = '/' :: p ∧ NoDots p)
    (hstays : stepsAbove [] (segments rest) = false) : base ++ ['/'] <+: removeDotSegments (base ++ '/' :: rest) := by
  rcases hbase with rfl | ⟨p, rfl, hp⟩
  · exact ⟨_, rfl⟩
  · rw [List.cons_append, List.cons_append, removeDotSegments, segments_append, resolveDots_append hp (segments_ne_nil rest)]
    obtain ⟨more, hmore, heq⟩ := @resolveDots_extends _ [] (segments p).reverse (segments_ne_nil rest) hstays
    rw [List.nil_append] at heq
    rw [List.append_nil, heq, List.reverse_reverse, joinSegments_append (segments_ne_nil p) hmore, joinSegments_segments]
    exact ⟨joinSegments more, by simp⟩

end Lib
