import Mathlib.Data.List.Basic
import Mathlib.Tactic.Common

/-! `user/grep.c`: the matcher against the language of its patterns, and the loop that cuts what `read`
returns into lines. A string is the list of the bytes before its NUL. -/

namespace Xv6.Grep

open List

/-- `here` is `matchhere(re, _)`. -/
def matchstar (c : UInt8) (here : List UInt8 → Bool) : List UInt8 → Bool
  | [] => here []
  | b :: text => here (b :: text) || (b = c || c = 46) && matchstar c here text

def matchhere : List UInt8 → List UInt8 → Bool
  | [], _ => true
  | [c], text => if c = 36 then text.isEmpty else text.head?.any fun b => c = 46 || c = b
  | c :: d :: re, text =>
    if d = 42 then matchstar c (matchhere re) text
    else (text.head?.any fun b => c = 46 || c = b) && matchhere (d :: re) text.tail

/-- The loop of `match`. -/
def matchany (re : List UInt8) : List UInt8 → Bool
  | [] => matchhere re []
  | b :: text => matchhere re (b :: text) || matchany re text

/-- The function `match`. -/
def matches_ (re text : List UInt8) : Bool :=
  if re.head? = some 94 then matchhere re.tail text else matchany re text

/-- `c`, and `c*`. -/
inductive Item
  | one (c : UInt8)
  | star (c : UInt8)

/-- A pattern as items, and whether a `$` ends it. -/
def items : List UInt8 → List Item × Bool
  | [] => ([], false)
  | [c] => if c = 36 then ([], true) else ([.one c], false)
  | c :: d :: re =>
    if d = 42 then (.star c :: (items re).1, (items re).2) else (.one c :: (items (d :: re)).1, (items (d :: re)).2)

def Fits (c b : UInt8) : Prop := c = 46 ∨ c = b

/-- The strings that a sequence of items matches. -/
def Denotes : List Item → List UInt8 → Prop
  | [], w => w = []
  | .one c :: is, w => ∃ b v, w = b :: v ∧ Fits c b ∧ Denotes is v
  | .star c :: is, w => ∃ u v, w = u ++ v ∧ (∀ b ∈ u, Fits c b) ∧ Denotes is v

/-- The text starts with a match, and ends with it if a `$` ends the pattern. -/
def Starts (re : List Item × Bool) (text : List UInt8) : Prop :=
  ∃ w post, text = w ++ post ∧ Denotes re.1 w ∧ (re.2 = true → post = [])

lemma matchstar_iff (c here text) :
    matchstar c here text = true ↔ ∃ u v, text = u ++ v ∧ (∀ b ∈ u, Fits c b) ∧ here v = true := by
  induction text with
  | nil =>
    constructor
    · intro h
      exact ⟨[], [], rfl, by simp, h⟩
    · rintro ⟨u, v, eq, -, h⟩
      obtain ⟨rfl, rfl⟩ := nil_eq_append_iff.mp eq
      exact h
  | cons b text ih =>
    simp only [matchstar, Bool.or_eq_true, Bool.and_eq_true, decide_eq_true_eq, ih]
    constructor
    · rintro (h | ⟨fits, u, v, rfl, all, h⟩)
      · exact ⟨[], b :: text, rfl, by simp, h⟩
      · refine ⟨b :: u, v, rfl, forall_mem_cons.mpr ⟨?_, all⟩, h⟩
        exact fits.symm.imp id Eq.symm
    · rintro ⟨u, v, eq, all, h⟩
      rcases u with _ | ⟨b', u⟩
      · exact .inl (eq ▸ h)
      · obtain ⟨rfl, rfl⟩ := cons.inj eq
        obtain ⟨fits, all⟩ := forall_mem_cons.mp all
        exact .inr ⟨fits.symm.imp Eq.symm id, u, v, rfl, all, h⟩

lemma starts_one (c is last text) :
    Starts (.one c :: is, last) text ↔ ∃ b rest, text = b :: rest ∧ Fits c b ∧ Starts (is, last) rest := by
  constructor
  · rintro ⟨_, post, rfl, ⟨b, v, rfl, fits, den⟩, done⟩
    exact ⟨b, v ++ post, rfl, fits, v, post, rfl, den, done⟩
  · rintro ⟨b, _, rfl, fits, v, post, rfl, den, done⟩
    exact ⟨b :: v, post, rfl, ⟨b, v, rfl, fits, den⟩, done⟩

lemma starts_star (c is last text) : Starts (.star c :: is, last) text ↔
    ∃ u rest, text = u ++ rest ∧ (∀ b ∈ u, Fits c b) ∧ Starts (is, last) rest := by
  constructor
  · rintro ⟨_, post, rfl, ⟨u, v, rfl, all, den⟩, done⟩
    exact ⟨u, v ++ post, append_assoc .., all, v, post, rfl, den, done⟩
  · rintro ⟨u, _, rfl, all, v, post, rfl, den, done⟩
    exact ⟨u ++ v, post, (append_assoc ..).symm, ⟨u, v, rfl, all, den⟩, done⟩

lemma starts_nil (last text) : Starts ([], last) text ↔ (last = true → text = []) := by
  constructor
  · rintro ⟨_, post, rfl, rfl, done⟩
    exact done
  · intro done
    exact ⟨[], text, rfl, rfl, done⟩

/-- By the recursion of `matchhere`, with the star as a search over the text. -/
lemma matchhere_iff : ∀ re text, matchhere re text = true ↔ Starts (items re) text
  | [], text => by simp [matchhere, items, starts_nil]
  | [c], text => by
    rw [matchhere, items]
    split_ifs with dollar
    · simp [starts_nil]
    · cases text <;> simp [starts_one, starts_nil, Fits]
  | c :: d :: re, text => by
    rw [matchhere, items]
    split_ifs with star
    · rw [starts_star, matchstar_iff]
      simp only [matchhere_iff re]
    · cases text <;> simp [starts_one, matchhere_iff (d :: re), Fits]

lemma matchany_iff (re text) : matchany re text = true ↔ ∃ pre rest, text = pre ++ rest ∧ matchhere re rest = true := by
  induction text with
  | nil => simp [matchany]
  | cons b text ih =>
    simp only [matchany, Bool.or_eq_true, ih]
    constructor
    · rintro (h | ⟨pre, rest, rfl, h⟩)
      · exact ⟨[], _, rfl, h⟩
      · exact ⟨b :: pre, rest, rfl, h⟩
    · rintro ⟨pre, rest, eq, h⟩
      rcases pre with _ | ⟨b', pre⟩
      · exact .inl (eq ▸ h)
      · obtain ⟨rfl, rfl⟩ := cons.inj eq
        exact .inr ⟨pre, rest, rfl, h⟩

/-- The pattern without a leading `^`. -/
def body (re : List UInt8) : List UInt8 := if re.head? = some 94 then re.tail else re

/-- `match` finds a part of the text that the pattern matches: its start after `^`, its end before `$`. -/
theorem match_decides (re text : List UInt8) : matches_ re text = true ↔
    ∃ pre w post, text = pre ++ w ++ post ∧ Denotes (items (body re)).1 w ∧
      (re.head? = some 94 → pre = []) ∧ ((items (body re)).2 = true → post = []) := by
  unfold matches_ body
  split_ifs with caret
  · rw [matchhere_iff]
    constructor
    · rintro ⟨w, post, rfl, den, done⟩
      exact ⟨[], w, post, rfl, den, fun _ => rfl, done⟩
    · rintro ⟨pre, w, post, rfl, den, first, done⟩
      rw [first caret]
      exact ⟨w, post, rfl, den, done⟩
  · rw [matchany_iff]
    simp only [matchhere_iff]
    constructor
    · rintro ⟨pre, _, rfl, w, post, rfl, den, done⟩
      exact ⟨pre, w, post, (append_assoc ..).symm, den, fun is => absurd is caret, done⟩
    · rintro ⟨pre, w, post, rfl, den, -, done⟩
      exact ⟨pre, w ++ post, append_assoc .., w, post, rfl, den, done⟩

/-- The loop over `strchr`, with the part `line` of a line before it: what is written, and what is left. -/
def scan (re : List UInt8) (line : List UInt8) : List UInt8 → List UInt8 × List UInt8
  | [] => ([], line)
  | b :: buf =>
    if b = 0 then ([], line ++ b :: buf)
    else if b = 10 then ((if matches_ re line then line ++ [10] else []) ++ (scan re [] buf).1, (scan re [] buf).2)
    else scan re (line ++ [b]) buf

/-- The loop over `read`, which returns at most the bytes that are wanted, left in `buf[1024]` and left in the
stream, but at least one: what is written, and what of the stream is not read. -/
def grepLoop (re : List UInt8) (want : Nat → Nat) : Nat → List UInt8 → List UInt8 → List UInt8 × List UInt8
  | 0, _, stream => ([], stream)
  | reads + 1, buf, stream =>
    let n := min (max 1 (want reads)) (min (1023 - buf.length) stream.length)
    if n = 0 then ([], stream)
    else
      let (out, buf) := scan re [] (buf ++ stream.take n)
      let (more, left) := grepLoop re want reads buf (stream.drop n)
      (out ++ more, left)

def grep (re : List UInt8) (want : Nat → Nat) (stream : List UInt8) : List UInt8 × List UInt8 :=
  grepLoop re want (stream.length + 1) [] stream

/-- The lines of a text, and what comes after the last newline. -/
def lines (line : List UInt8) : List UInt8 → List (List UInt8) × List UInt8
  | [] => ([], line)
  | b :: s => if b = 10 then (line :: (lines [] s).1, (lines [] s).2) else lines (line ++ [b]) s

def written (re : List UInt8) (ls : List (List UInt8)) : List UInt8 := (ls.filter (matches_ re)).flatMap (· ++ [10])

/-- What should be written. -/
def wanted (re stream : List UInt8) : List UInt8 :=
  let (ls, last) := lines [] stream
  written re ls ++ if last ≠ [] ∧ matches_ re last then last else []

/-- The lines that go through the buffer. -/
def Short (p : List (List UInt8) × List UInt8) : Prop := (∀ l ∈ p.1, l.length ≤ 1022) ∧ p.2.length ≤ 1023

variable {re line s : List UInt8}

lemma scan_eq (plain : 0 ∉ s) : scan re line s = (written re (lines line s).1, (lines line s).2) := by
  induction s generalizing line with
  | nil => rfl
  | cons b s ih =>
    obtain ⟨nonzero, plain⟩ := not_or.mp (mem_cons.not.mp plain)
    rw [scan, lines, if_neg (Ne.symm nonzero)]
    by_cases newline : b = 10
    · rw [if_pos newline, if_pos newline, ih plain]
      cases h : matches_ re line <;> simp [written, h]
    · rw [if_neg newline, if_neg newline]
      exact ih plain

lemma lines_append (line a b) : lines line (a ++ b) =
    ((lines line a).1 ++ (lines (lines line a).2 b).1, (lines (lines line a).2 b).2) := by
  induction a generalizing line with
  | nil => rfl
  | cons c a ih =>
    rw [cons_append, lines, lines]
    split_ifs
    · rw [ih]
      rfl
    · exact ih _

lemma lines_rest (whole : lines [] line = ([], line)) : lines [] (lines line s).2 = ([], (lines line s).2) := by
  induction s generalizing line with
  | nil => exact whole
  | cons b s ih =>
    rw [lines]
    split_ifs with newline
    · exact ih rfl
    · apply ih
      rw [lines_append, whole]
      simp [lines, newline]

lemma lines_plain (first : 0 ∉ line) (plain : 0 ∉ s) : 0 ∉ (lines line s).2 := by
  induction s generalizing line with
  | nil => exact first
  | cons b s ih =>
    obtain ⟨nonzero, plain⟩ := not_or.mp (mem_cons.not.mp plain)
    rw [lines]
    split_ifs
    · exact ih (by simp) plain
    · exact ih (by simp [first, nonzero]) plain

lemma lines_length (line s) : (∀ l ∈ (lines line s).1, l.length < line.length + s.length) ∧
    (lines line s).2.length ≤ line.length + s.length := by
  induction s generalizing line with
  | nil => simp [lines]
  | cons b s ih =>
    rw [lines]
    split_ifs
    · obtain ⟨all, last⟩ := ih []
      simp only [forall_mem_cons, length_cons, length_nil] at all last ⊢
      exact ⟨⟨by omega, fun l mem => by have := all l mem; omega⟩, by omega⟩
    · obtain ⟨all, last⟩ := ih (line ++ [b])
      simp only [length_append, length_cons, length_nil] at all last ⊢
      exact ⟨fun l mem => by have := all l mem; omega, by omega⟩

lemma not_short_of_long (long : 1023 < line.length) : ¬ Short (lines line s) := by
  induction s generalizing line with
  | nil => exact fun short => absurd short.2 (by simpa [lines] using long)
  | cons b s ih =>
    rw [lines]
    split_ifs
    · intro short
      have := short.1 line (by simp)
      omega
    · exact ih (by simp; omega)

lemma not_short_of_full (full : line.length = 1023) (more : s ≠ []) : ¬ Short (lines line s) := by
  obtain ⟨b, s, rfl⟩ := exists_cons_of_ne_nil more
  rw [lines]
  split_ifs
  · intro short
    have := short.1 line (by simp)
    omega
  · exact not_short_of_long (by simp [full])

/-- Each round keeps a part of a line at the start of `buf`. -/
lemma grepLoop_eq (re want reads buf stream) (enough : stream.length < reads)
    (part : lines [] buf = ([], buf)) (room : buf.length ≤ 1023) (first : 0 ∉ buf) (plain : 0 ∉ stream) :
    (Short (lines buf stream) → grepLoop re want reads buf stream = (written re (lines buf stream).1, [])) ∧
      (¬ Short (lines buf stream) → (grepLoop re want reads buf stream).2 ≠ []) := by
  induction reads generalizing buf stream with
  | zero => omega
  | succ reads ih =>
    rw [grepLoop]
    generalize count : min (max 1 (want reads)) (min (1023 - buf.length) stream.length) = n
    dsimp only
    by_cases zero : n = 0
    · rw [if_pos zero]
      by_cases empty : stream = []
      · subst empty
        exact ⟨fun _ => rfl, fun long => absurd ⟨by simp [lines], by simpa [lines] using room⟩ long⟩
      · have pos := length_pos_iff.mpr empty
        exact ⟨fun short => absurd short (not_short_of_full (by omega) empty), fun _ => empty⟩
    · rw [if_neg zero]
      have fits : (stream.take n).length = n := by rw [length_take]; omega
      have plain1 : 0 ∉ stream.take n := fun mem => plain (mem_of_mem_take mem)
      have cut := lines_append buf (stream.take n) (stream.drop n)
      rw [take_append_drop] at cut
      have scanned : scan re [] (buf ++ stream.take n) =
        (written re (lines buf (stream.take n)).1, (lines buf (stream.take n)).2) := by
        rw [scan_eq (by simp [first, plain1]), lines_append, part]
        rfl
      obtain ⟨short, last⟩ := lines_length buf (stream.take n)
      obtain ⟨done, stuck⟩ := ih (lines buf (stream.take n)).2 (stream.drop n) (by rw [length_drop]; omega)
        (lines_rest part) (by omega) (lines_plain first plain1) fun mem => plain (mem_of_mem_drop mem)
      have same : Short (lines buf stream) ↔ Short (lines (lines buf (stream.take n)).2 (stream.drop n)) := by
        rw [cut]
        refine and_congr_left fun _ => ⟨fun all l mem => all l (mem_append_right _ mem), fun all l mem => ?_⟩
        rcases mem_append.mp mem with mem | mem
        · have := short l mem
          omega
        · exact all l mem
      rw [scanned, same]
      refine ⟨fun short => ?_, stuck⟩
      rw [done short, cut]
      simp [written]

/-- `grep` writes the lines that match and reads the whole stream, just if no line is too long for the buffer
and nothing that matches comes after the last newline. -/
theorem grep_prints_iff (re : List UInt8) (want : Nat → Nat) (stream : List UInt8) (plain : 0 ∉ stream) :
    grep re want stream = (wanted re stream, []) ↔ Short (lines [] stream) ∧
      ((lines [] stream).2 = [] ∨ matches_ re (lines [] stream).2 = false) := by
  obtain ⟨done, stuck⟩ := grepLoop_eq re want (stream.length + 1) [] stream (by omega) rfl (by simp) (by simp) plain
  rw [grep]
  by_cases short : Short (lines [] stream)
  · rw [done short, and_iff_right short, wanted]
    by_cases empty : (lines [] stream).2 = [] <;> cases h : matches_ re (lines [] stream).2 <;> simp [empty, h]
  · exact iff_of_false (fun eq => stuck short (congrArg Prod.snd eq)) fun h => short h.1

theorem grep_prints_line : grep [97] (fun _ => 1) [97, 10] = (wanted [97] [97, 10], []) :=
  (grep_prints_iff [97] (fun _ => 1) [97, 10] (by decide)).mpr (by simp [Short, lines])

/-- The input `a` has no newline. -/
theorem grep_loses_line : grep [97] (fun _ => 1) [97] = ([], []) ∧ wanted [97] [97] = [97] := by decide

end Xv6.Grep
