import Mathlib.Data.List.Basic

/-!
# Lines

Texts as lists of characters, cut into lines that keep their line breaks, as `str.splitlines` does it, and what becomes of the lines
when lines are put in or taken away.
-/

namespace Lib

/-- A text without a start, if it has that one. -/
def trimPrefix (start text : String) : String :=
  if start.toList.isPrefixOf text.toList then String.ofList (text.toList.drop start.length) else text

/-- The characters that break a line. -/
def isBreak (c : Char) : Bool :=
  ['\n', '\r', '\x0b', '\x0c', '\x1c', '\x1d', '\x1e', '\u0085', '\u2028', '\u2029'].contains c

/-- Whether a character ends its line before a text: a carriage return stays with a line feed. -/
def endsLine (c : Char) (rest : List Char) : Bool := isBreak c && !(decide (c = '\r') && decide (rest.head? = some '\n'))

/-- A character before the first line. -/
def consLine (c : Char) : List (List Char) → List (List Char)
  | [] => [[c]]
  | line :: lines => (c :: line) :: lines

/-- The lines of a text, with their breaks. -/
def splitLines : List Char → List (List Char)
  | [] => []
  | c :: rest => if endsLine c rest then [c] :: splitLines rest else consLine c (splitLines rest)

theorem consLine_ne_nil (c : Char) (lines : List (List Char)) : consLine c lines ≠ [] := by
  cases lines with
  | nil => exact List.cons_ne_nil _ _
  | cons line lines => exact List.cons_ne_nil _ _

theorem splitLines_ne_nil {t : List Char} (h : t ≠ []) : splitLines t ≠ [] := by
  obtain ⟨c, t, rfl⟩ := List.exists_cons_of_ne_nil h
  rw [splitLines]
  split
  · exact List.cons_ne_nil _ _
  · exact consLine_ne_nil _ _

theorem flatten_consLine (c : Char) (lines : List (List Char)) : (consLine c lines).flatten = c :: lines.flatten := by
  cases lines with
  | nil => rfl
  | cons line lines => rfl

theorem flatten_splitLines (t : List Char) : (splitLines t).flatten = t := by
  induction t with
  | nil => rfl
  | cons c t ih =>
    rw [splitLines]
    split
    · rw [List.flatten_cons, ih]
      rfl
    · rw [flatten_consLine, ih]

/-- A text that ends its last line before another one is cut on its own. -/
theorem splitLines_append {a b : List Char} {c : Char} (hlast : a.getLast? = some c) (hends : endsLine c b = true) :
    splitLines (a ++ b) = splitLines a ++ splitLines b := by
  induction a with
  | nil => cases hlast
  | cons x a ih =>
    cases a with
    | nil =>
      obtain rfl : x = c := Option.some.inj hlast
      have hbreak : isBreak x = true := (Bool.and_eq_true_iff.1 hends).1
      have halone : endsLine x [] = true := by simp [endsLine, hbreak]
      rw [List.singleton_append, splitLines, if_pos hends, splitLines, if_pos halone]
      rfl
    | cons y a =>
      have hhead : endsLine x (y :: a ++ b) = endsLine x (y :: a) := rfl
      have hlater := ih (by rw [List.getLast?_cons_cons] at hlast; exact hlast)
      rw [List.cons_append, splitLines, hhead, hlater, splitLines.eq_2 x (y :: a)]
      split
      · rfl
      · obtain ⟨line, lines, hlines⟩ := List.exists_cons_of_ne_nil (splitLines_ne_nil (List.cons_ne_nil y a))
        rw [hlines]
        rfl

/-! ## Lines of a text -/

/-- A text of one line. -/
def IsLine (l : List Char) : Prop := splitLines l = [l]

theorem IsLine.ne_nil {l : List Char} (h : IsLine l) : l ≠ [] := by
  rintro rfl
  cases h

/-- A text without breaks inside and with a line feed at its end is a line. -/
theorem isLine_of_body {body : List Char} (h : ∀ c ∈ body, isBreak c = false) : IsLine (body ++ ['\n']) := by
  induction body with
  | nil => rfl
  | cons c body ih =>
    obtain ⟨hc, hbody⟩ := List.forall_mem_cons.1 h
    have hline : splitLines (body ++ ['\n']) = [body ++ ['\n']] := ih hbody
    rw [IsLine, List.cons_append, splitLines, endsLine, hc, hline]
    rfl

/-- What is true of the rest of a line. -/
theorem IsLine.tail {x y : Char} {l : List Char} (h : IsLine (x :: y :: l)) : endsLine x (y :: l) = false ∧ IsLine (y :: l) := by
  obtain ⟨line, lines, hlines⟩ := List.exists_cons_of_ne_nil (splitLines_ne_nil (List.cons_ne_nil y l))
  rw [IsLine, splitLines, hlines] at h
  cases hends : endsLine x (y :: l) with
  | true =>
    rw [hends] at h
    cases h
  | false =>
    rw [hends] at h
    obtain ⟨hline, rfl⟩ := List.cons.inj h
    refine ⟨rfl, ?_⟩
    rw [IsLine, hlines, (List.cons.inj hline).2]

/-- A line feed after a line that ends with a carriage return belongs to it. -/
theorem IsLine.lineFeed {l : List Char} (h : IsLine l) (hlast : l.getLast? = some '\r') : IsLine (l ++ ['\n']) := by
  induction l with
  | nil => cases hlast
  | cons x l ih =>
    cases l with
    | nil =>
      obtain rfl : x = '\r' := Option.some.inj hlast
      rfl
    | cons y l =>
      obtain ⟨hends, hline⟩ := h.tail
      have hlater : splitLines (y :: l ++ ['\n']) = [y :: l ++ ['\n']] := ih hline (by rw [List.getLast?_cons_cons] at hlast; exact hlast)
      have hhead : endsLine x (y :: l ++ ['\n']) = false := hends
      rw [IsLine, List.cons_append, splitLines, hhead, hlater]
      rfl

/-- Lines in a row: all but the last one end with a break. -/
inductive AreLines : List (List Char) → Prop
  | nil : AreLines []
  | single {l : List Char} (h : IsLine l) : AreLines [l]
  | cons {l : List Char} {ls : List (List Char)} {c : Char} (h : IsLine l) (hlast : l.getLast? = some c) (hbreak : isBreak c = true)
      (hls : AreLines ls) : AreLines (l :: ls)

theorem AreLines.filter {ls : List (List Char)} (h : AreLines ls) (p : List Char → Bool) : AreLines (ls.filter p) := by
  induction h with
  | nil => exact .nil
  | single h =>
    rw [List.filter_cons]
    split
    · exact .single h
    · exact .nil
  | cons h hlast hbreak hls ih =>
    rw [List.filter_cons]
    split
    · exact .cons h hlast hbreak ih
    · exact ih

/-- The first line of a text, what follows it, and how it ends. -/
theorem splitLines_cons {t l : List Char} {ls : List (List Char)} (h : splitLines t = l :: ls) :
    IsLine l ∧ splitLines ls.flatten = ls ∧ (ls = [] ∨ ∃ c, l.getLast? = some c ∧ endsLine c ls.flatten = true) := by
  induction t generalizing l ls with
  | nil => cases h
  | cons x t ih =>
    rw [splitLines] at h
    split at h
    · case isTrue hends =>
      obtain ⟨rfl, rfl⟩ := List.cons.inj h
      have halone : endsLine x [] = true := by simp [endsLine, (Bool.and_eq_true_iff.1 hends).1]
      refine ⟨by rw [IsLine, splitLines, if_pos halone]; rfl, by rw [flatten_splitLines], .inr ⟨x, rfl, ?_⟩⟩
      rw [flatten_splitLines]
      exact hends
    · case isFalse hends =>
      cases hlines : splitLines t with
      | nil =>
        rw [hlines] at h
        obtain ⟨rfl, rfl⟩ := List.cons.inj h
        have hempty : t = [] := by
          by_contra hne
          exact splitLines_ne_nil hne hlines
        subst hempty
        exact ⟨by rw [IsLine, splitLines, if_neg hends]; rfl, rfl, .inl rfl⟩
      | cons l' ls' =>
        rw [hlines] at h
        obtain ⟨rfl, rfl⟩ := List.cons.inj h
        obtain ⟨hline, hrest, hlast⟩ := ih hlines
        obtain ⟨y, l', rfl⟩ := List.exists_cons_of_ne_nil hline.ne_nil
        have htext : t = y :: l' ++ ls'.flatten := by rw [← flatten_splitLines t, hlines, List.flatten_cons]
        have hhead : ¬endsLine x (y :: l') = true := by
          rw [htext] at hends
          exact hends
        refine ⟨?_, hrest, ?_⟩
        · have hsplit : splitLines (y :: l') = [y :: l'] := hline
          rw [IsLine, splitLines, if_neg hhead, hsplit]
          rfl
        · rcases hlast with hnil | ⟨c, hlast, hends⟩
          · exact .inl hnil
          · exact .inr ⟨c, by rw [List.getLast?_cons_cons]; exact hlast, hends⟩

theorem areLines_splitLines (t : List Char) : AreLines (splitLines t) := by
  generalize hlines : splitLines t = lines
  induction lines generalizing t with
  | nil => exact .nil
  | cons l ls ih =>
    obtain ⟨hline, hrest, hlast⟩ := splitLines_cons hlines
    rcases hlast with rfl | ⟨c, hlast, hends⟩
    · exact .single hline
    · exact .cons hline hlast (Bool.and_eq_true_iff.1 hends).1 (ih _ hrest)

/-- The lines of lines that were put together are these lines, or two of them that a carriage return and a line feed made one. -/
theorem AreLines.mem_splitLines {ls : List (List Char)} (h : AreLines ls) :
    ∀ l ∈ splitLines ls.flatten, l ∈ ls ∨ ∃ l' ∈ ls, l'.getLast? = some '\r' ∧ l = l' ++ ['\n'] := by
  induction h with
  | nil => exact fun l hl => absurd hl List.not_mem_nil
  | single h =>
    intro l hl
    have hsplit : splitLines _ = _ := h
    rw [List.flatten_cons, List.flatten_nil, List.append_nil, hsplit] at hl
    exact .inl hl
  | @cons l ls c h hlast hbreak hls ih =>
    have hlater : ∀ m ∈ splitLines ls.flatten, m ∈ l :: ls ∨ ∃ l' ∈ l :: ls, l'.getLast? = some '\r' ∧ m = l' ++ ['\n'] := by
      intro m hm
      rcases ih m hm with hm | ⟨l', hl', hm⟩
      · exact .inl (List.mem_cons_of_mem _ hm)
      · exact .inr ⟨l', List.mem_cons_of_mem _ hl', hm⟩
    have hsplit : splitLines l = [l] := h
    intro m hm
    rw [List.flatten_cons] at hm
    by_cases hends : endsLine c ls.flatten = true
    · rw [splitLines_append hlast hends, hsplit] at hm
      rcases List.mem_cons.1 hm with rfl | hm
      · exact .inl List.mem_cons_self
      · exact hlater m hm
    · obtain ⟨rfl, hhead⟩ : c = '\r' ∧ ls.flatten.head? = some '\n' := by simpa [endsLine, hbreak] using hends
      obtain ⟨rest, hrest⟩ : ∃ rest, ls.flatten = '\n' :: rest := by
        cases hflat : ls.flatten with
        | nil =>
          rw [hflat] at hhead
          cases hhead
        | cons x rest =>
          rw [hflat] at hhead
          exact ⟨rest, by rw [Option.some.inj hhead]⟩
      have hfeed : splitLines ('\n' :: rest) = ['\n'] :: splitLines rest := by
        rw [splitLines, if_pos (by rfl)]
      have hjoined : splitLines (l ++ ['\n']) = [l ++ ['\n']] := h.lineFeed hlast
      have hwhole : splitLines (l ++ '\n' :: rest) = (l ++ ['\n']) :: splitLines rest := by
        have happend := splitLines_append (a := l ++ ['\n']) (b := rest) (c := '\n') (by simp) (by rfl)
        rw [hjoined, List.append_assoc] at happend
        exact happend
      rw [hrest, hwhole] at hm
      rcases List.mem_cons.1 hm with rfl | hm
      · exact .inr ⟨l, List.mem_cons_self, hlast, rfl⟩
      · refine hlater m ?_
        rw [hrest, hfeed]
        exact List.mem_cons_of_mem _ hm

/-! ## Lines that are put in -/

/-- A line that can be put before any other line: it ends with a line feed and does not start with one. -/
structure IsNotice (l : List Char) : Prop where
  isLine : IsLine l
  last : l.getLast? = some '\n'
  head : l.head? ≠ some '\n'

theorem splitLines_notices {ns : List (List Char)} (h : ∀ n ∈ ns, IsNotice n) (t : List Char) :
    splitLines (ns.flatten ++ t) = ns ++ splitLines t := by
  induction ns with
  | nil => rfl
  | cons n ns ih =>
    obtain ⟨hn, hns⟩ := List.forall_mem_cons.1 h
    have hsplit : splitLines n = [n] := hn.isLine
    have hends : endsLine '\n' (ns.flatten ++ t) = true := by rfl
    rw [List.flatten_cons, List.append_assoc, splitLines_append hn.last hends, hsplit, ih hns]
    rfl

/-- Lines with notices before each of them. -/
def withNotices (notices : List Char × Nat → List (List Char)) (lines : List (List Char)) (k : Nat) : List (List Char) :=
  (lines.zipIdx k).flatMap fun p => notices p ++ [p.1]

theorem flatten_withNotices (notices : List Char × Nat → List (List Char)) (lines : List (List Char)) (k : Nat) :
    (withNotices notices lines k).flatten = (lines.zipIdx k).flatMap fun p => (notices p).flatten ++ p.1 := by
  induction lines generalizing k with
  | nil => rfl
  | cons l ls ih =>
    unfold withNotices at ih ⊢
    simp [ih]

theorem withNotices_none {notices : List Char × Nat → List (List Char)} (h : ∀ p, notices p = []) (lines : List (List Char)) (k : Nat) :
    withNotices notices lines k = lines := by
  induction lines generalizing k with
  | nil => rfl
  | cons l ls ih =>
    unfold withNotices at ih ⊢
    rw [List.zipIdx_cons, List.flatMap_cons, ih, h]
    rfl

/-- What is left of lines with notices when the notices are taken away. -/
theorem filter_withNotices {notices : List Char × Nat → List (List Char)} {q : List Char → Bool} (h : ∀ p, ∀ n ∈ notices p, q n = false)
    {lines : List (List Char)} (hlines : ∀ l ∈ lines, q l = true) (k : Nat) : (withNotices notices lines k).filter q = lines := by
  induction lines generalizing k with
  | nil => rfl
  | cons l ls ih =>
    obtain ⟨hl, hls⟩ := List.forall_mem_cons.1 hlines
    have hnotices : (notices (l, k)).filter q = [] := List.filter_eq_nil_iff.2 fun n hn => by simp [h (l, k) n hn]
    have hlater := ih hls (k + 1)
    unfold withNotices at hlater ⊢
    rw [List.zipIdx_cons, List.flatMap_cons, List.filter_append, List.filter_append, hnotices, hlater, List.filter_cons, if_pos hl]
    rfl

/-- The lines of a text with notices are its lines with these notices. -/
theorem splitLines_withNotices {notices : List Char × Nat → List (List Char)} (h : ∀ p, ∀ n ∈ notices p, IsNotice n)
    {lines : List (List Char)} (hlines : splitLines lines.flatten = lines) (k : Nat) :
    splitLines (withNotices notices lines k).flatten = withNotices notices lines k := by
  induction lines generalizing k with
  | nil => rfl
  | cons l ls ih =>
    obtain ⟨hline, hrest, hlast⟩ := splitLines_cons hlines
    have hsplit : splitLines l = [l] := hline
    have hcons : withNotices notices (l :: ls) k = notices (l, k) ++ l :: withNotices notices ls (k + 1) := by
      simp [withNotices]
    rw [hcons, List.flatten_append, splitLines_notices (h (l, k)), List.flatten_cons]
    rcases hlast with rfl | ⟨c, hlast, hends⟩
    · simp [withNotices, hsplit]
    · have hends' : endsLine c (withNotices notices ls (k + 1)).flatten = true := by
        cases ls with
        | nil => exact hends
        | cons l' ls' =>
          cases hnotices : notices (l', k + 1) with
          | nil =>
            obtain ⟨y, l', rfl⟩ := List.exists_cons_of_ne_nil (splitLines_cons hrest).1.ne_nil
            simpa [withNotices, hnotices, endsLine] using hends
          | cons n ns =>
            have hn := h (l', k + 1) n (hnotices ▸ List.mem_cons_self)
            obtain ⟨y, n, rfl⟩ := List.exists_cons_of_ne_nil hn.isLine.ne_nil
            have hy : y ≠ '\n' := fun heq => hn.head (by rw [heq]; rfl)
            have hbreak := (Bool.and_eq_true_iff.1 hends).1
            simp [withNotices, hnotices, endsLine, hbreak, hy]
      rw [splitLines_append hlast hends', hsplit, ih hrest]
      rfl

end Lib
