import Mathlib.Data.List.TakeWhile
import Mathlib.Tactic.Common
import Xv6.FsCalls

/-! The parser of `user/sh.c`. A line is parsed in the buffer it was read into: a command has the
places of its words there, and `nulterminate` ends each of them with a `NUL` afterwards. The functions
that call each other have a bound on the depth of the calls, and what is proved holds for every bound. -/

namespace Xv6.Shell

open FsCalls (oRdonly oWronly oCreate oTrunc)

def whitespace : List UInt8 := [32, 9, 13, 10, 11]
/-- `<|>&;()`. -/
def symbols : List UInt8 := [60, 124, 62, 38, 59, 40, 41]

/-- A byte of the line; after its end stands the `NUL`. -/
def byte (line : List UInt8) (s : Nat) : UInt8 := line.getD s 0

def white (c : UInt8) : Bool := decide (c ∈ whitespace)
def plain (c : UInt8) : Bool := decide (c ∉ whitespace ∧ c ∉ symbols)

/-- The loops `while(s < es && p(*s)) s++`. -/
def skip (line : List UInt8) (p : UInt8 → Bool) (s : Nat) : Nat := s + ((line.drop s).takeWhile p).length

/-- The place of a word, from `q` up to `eq`. -/
structure Span where
  q : Nat
  eq : Nat
  deriving DecidableEq, Repr

/-- What `gettoken` returns and where it leaves the cursor. -/
structure Token where
  ret : UInt8
  span : Span
  next : Nat
  deriving DecidableEq, Repr

/-- The kind of the token at `q`, which is no blank, and its end: 97 (`a`) is a word, 43 (`+`) is `>>`. -/
def scan (line : List UInt8) (q : Nat) : UInt8 × Nat :=
  let c := byte line q
  if c = 0 then (0, q)
  else if c ∈ ([124, 40, 41, 59, 38, 60] : List UInt8) then (c, q + 1)
  else if c = 62 then if byte line (q + 1) = 62 then (43, q + 2) else (62, q + 1)
  else (97, skip line plain q)

def gettoken (line : List UInt8) (s : Nat) : Token :=
  let q := skip line white s
  let (ret, eq) := scan line q
  ⟨ret, ⟨q, eq⟩, skip line white eq⟩

def peek (line : List UInt8) (s : Nat) (toks : List UInt8) : Bool × Nat :=
  let s := skip line white s
  (byte line s ≠ 0 ∧ byte line s ∈ toks, s)

/-- A redirection: the file with its mode and the descriptor. -/
structure Redir where
  file : Span
  mode : Nat
  fd : Nat
  deriving DecidableEq, Repr

inductive Cmd
  | exec (argv : List Span)
  | redir (cmd : Cmd) (r : Redir)
  | pipe (left right : Cmd)
  | list (left right : Cmd)
  | back (cmd : Cmd)
  deriving DecidableEq, Repr

inductive Stop
  | panic (s : String)
  | fuel
  deriving DecidableEq, Repr

def maxargs : Nat := 10

/-- The redirections around a command, the first one innermost. `parseexec` fills its node while it
is already inside them; here it is put there when it is full. -/
def wrap (cmd : Cmd) (rs : List Redir) : Cmd := rs.foldl .redir cmd

/-- The `switch` of `parseredirs`. -/
def redirect (tok : UInt8) (file : Span) : List Redir :=
  if tok = 60 then [⟨file, oRdonly, 0⟩]
  else if tok = 62 then [⟨file, oWronly ||| oCreate ||| oTrunc, 1⟩]
  else if tok = 43 then [⟨file, oWronly ||| oCreate, 1⟩]
  else []

section
variable (line : List UInt8)

def parseredirs : Nat → Nat → Except Stop (List Redir × Nat)
  | 0, _ => .error .fuel
  | fuel + 1, s =>
      let (more, s) := peek line s [60, 62]
      if more then
        let tok := gettoken line s
        let file := gettoken line tok.next
        if file.ret ≠ 97 then .error (.panic "missing file for redirection")
        else do
          let (rs, s) ← parseredirs fuel file.next
          return (redirect tok.ret file.span ++ rs, s)
      else .ok ([], s)

/-- The loop of `parseexec`. -/
def parseargs : Nat → List Span → List Redir → Nat → Except Stop (Cmd × Nat)
  | 0, _, _, _ => .error .fuel
  | fuel + 1, argv, rs, s =>
      let (stop, s) := peek line s [124, 41, 38, 59]
      if stop then .ok (wrap (.exec argv) rs, s)
      else
        let tok := gettoken line s
        if tok.ret = 0 then .ok (wrap (.exec argv) rs, tok.next)
        else if tok.ret ≠ 97 then .error (.panic "syntax")
        else if maxargs ≤ argv.length + 1 then .error (.panic "too many args")
        else do
          let (more, s) ← parseredirs line fuel tok.next
          parseargs fuel (argv ++ [tok.span]) (rs ++ more) s

/-- The loop of `parseline`. -/
def parseback : Nat → Cmd → Nat → Except Stop (Cmd × Nat)
  | 0, _, _ => .error .fuel
  | fuel + 1, cmd, s =>
      let (more, s) := peek line s [38]
      if more then parseback fuel (.back cmd) (gettoken line s).next else .ok (cmd, s)

mutual

def parseline : Nat → Nat → Except Stop (Cmd × Nat)
  | 0, _ => .error .fuel
  | fuel + 1, s => do
      let (cmd, s) ← parsepipe fuel s
      let (cmd, s) ← parseback line fuel cmd s
      let (more, s) := peek line s [59]
      if more then do
        let (right, s) ← parseline fuel (gettoken line s).next
        return (.list cmd right, s)
      else return (cmd, s)

def parsepipe : Nat → Nat → Except Stop (Cmd × Nat)
  | 0, _ => .error .fuel
  | fuel + 1, s => do
      let (cmd, s) ← parseexec fuel s
      let (more, s) := peek line s [124]
      if more then do
        let (right, s) ← parsepipe fuel (gettoken line s).next
        return (.pipe cmd right, s)
      else return (cmd, s)

def parseexec : Nat → Nat → Except Stop (Cmd × Nat)
  | 0, _ => .error .fuel
  | fuel + 1, s =>
      let (block, s) := peek line s [40]
      if block then parseblock fuel s
      else do
        let (rs, s) ← parseredirs line fuel s
        parseargs line fuel [] rs s

def parseblock : Nat → Nat → Except Stop (Cmd × Nat)
  | 0, _ => .error .fuel
  | fuel + 1, s =>
      let (opens, s) := peek line s [40]
      if ¬ opens then .error (.panic "parseblock")
      else do
        let (cmd, s) ← parseline fuel (gettoken line s).next
        let (closes, s) := peek line s [41]
        if ¬ closes then throw (.panic "syntax - missing )")
        else do
          let (rs, s) ← parseredirs line fuel (gettoken line s).next
          return (wrap cmd rs, s)

end

end

/-- `parsecmd` up to its `nulterminate`, on the line in a buffer. -/
def parsecmd (fuel : Nat) (buf : List UInt8) : Except Stop Cmd := do
  let line := buf.takeWhile (· ≠ 0)
  let (cmd, s) ← parseline line fuel 0
  if (peek line s []).2 ≠ line.length then throw (.panic "syntax")
  else return cmd

/-- The assignment `*p = 0`; there is none outside the buffer. -/
def terminate (buf : List UInt8) (w : Span) : Option (List UInt8) :=
  if w.eq < buf.length then some (buf.set w.eq 0) else none

def nulterminate : Cmd → List UInt8 → Option (List UInt8)
  | .exec argv, buf => argv.foldlM terminate buf
  | .redir cmd r, buf => do terminate (← nulterminate cmd buf) r.file
  | .pipe left right, buf => do nulterminate right (← nulterminate left buf)
  | .list left right, buf => do nulterminate right (← nulterminate left buf)
  | .back cmd, buf => nulterminate cmd buf

/-- The string that starts at `q`. -/
def cstring (buf : List UInt8) (q : Nat) : List UInt8 := (buf.drop q).takeWhile (· ≠ 0)

/-- The text of a word in the line. -/
def text (line : List UInt8) (w : Span) : List UInt8 := (line.drop w.q).take (w.eq - w.q)

section

variable {line : List UInt8} {p : UInt8 → Bool} {s i : Nat}

lemma le_skip : s ≤ skip line p s := Nat.le_add_right ..

lemma skip_le (le : s ≤ line.length) : skip line p s ≤ line.length := by
  have := (List.takeWhile_prefix p (l := line.drop s)).length_le
  rw [List.length_drop] at this
  unfold skip
  omega

lemma drop_skip : line.drop (skip line p s) = (line.drop s).dropWhile p := by
  have whole := congrArg (List.drop ((line.drop s).takeWhile p).length)
    (List.takeWhile_append_dropWhile (p := p) (l := line.drop s))
  rw [List.drop_left] at whole
  rw [skip, ← List.drop_drop, ← whole]

lemma byte_eq_head : byte line s = (line.drop s).head?.getD 0 := by
  rw [byte, List.head?_drop, List.getD_eq_getElem?_getD]

lemma skip_stops (less : skip line p s < line.length) : p (byte line (skip line p s)) = false := by
  have stop := List.head?_dropWhile_not p (line.drop s)
  rw [byte_eq_head, ← drop_skip] at *
  rw [List.head?_drop, List.getElem?_eq_getElem less] at *
  exact stop

lemma skip_holds (le : s ≤ i) (less : i < skip line p s) : p (byte line i) = true := by
  have inside : i - s < ((line.drop s).takeWhile p).length := by
    unfold skip at less
    omega
  have length := (List.takeWhile_prefix p (l := line.drop s)).length_le
  rw [List.length_drop] at length
  have taken := (List.takeWhile_prefix p (l := line.drop s)).getElem inside
  rw [List.getElem_drop] at taken
  have mem := List.mem_takeWhile_imp (List.getElem_mem inside)
  rw [taken] at mem
  have here : s + (i - s) = i := by omega
  simp only [here] at mem
  rw [byte, List.getD_eq_getElem?_getD, List.getElem?_eq_getElem (by omega)]
  exact mem

lemma skip_idem : skip line p (skip line p s) = skip line p s := by
  rw [skip, drop_skip]
  have : ((line.drop s).dropWhile p).takeWhile p = [] := by
    rw [List.takeWhile_eq_nil_iff]
    intro pos
    have := List.dropWhile_get_zero_not p (line.drop s) pos
    simpa using this
  rw [this]
  rfl

lemma gettoken_skip : gettoken line (skip line white s) = gettoken line s := by
  unfold gettoken
  rw [skip_idem]

end

/-- A word of the line: plain bytes, and behind them none. -/
structure IsWord (line : List UInt8) (w : Span) : Prop where
  le : w.q ≤ w.eq
  upTo : w.eq ≤ line.length
  inside : ∀ i, w.q ≤ i → i < w.eq → plain (byte line i) = true
  stop : w.eq < line.length → plain (byte line w.eq) = false

/-- The words of a command, in the order in which they are terminated. -/
def Cmd.words : Cmd → List Span
  | .exec argv => argv
  | .redir cmd r => cmd.words ++ [r.file]
  | .pipe left right => left.words ++ right.words
  | .list left right => left.words ++ right.words
  | .back cmd => cmd.words

/-- If a parse succeeds, the cursor is still in the line and what was found are words of it. -/
def Finds (line : List UInt8) (words : α → List Span) (x : Except Stop (α × Nat)) : Prop :=
  ∀ a s, x = .ok (a, s) → s ≤ line.length ∧ ∀ w ∈ words a, IsWord line w

section

variable {line : List UInt8} {s : Nat} {words : α → List Span} {words' : β → List Span}

lemma Finds.error {e : Stop} : Finds line words (.error e) := fun _ _ eq => by cases eq

lemma Finds.ok {a : α} (le : s ≤ line.length) (all : ∀ w ∈ words a, IsWord line w) : Finds line words (.ok (a, s)) := by
  intro a' s' eq
  obtain ⟨rfl, rfl⟩ := Prod.mk.inj (Except.ok.inj eq)
  exact ⟨le, all⟩

lemma Finds.bind {x : Except Stop (α × Nat)} {f : α × Nat → Except Stop (β × Nat)} (h : Finds line words x)
    (rest : ∀ a s, s ≤ line.length → (∀ w ∈ words a, IsWord line w) → Finds line words' (f (a, s))) :
    Finds line words' (x >>= f) := by
  cases x with
  | error e => exact .error
  | ok pair =>
    obtain ⟨le, all⟩ := h pair.1 pair.2 rfl
    exact rest pair.1 pair.2 le all

lemma peek_le (le : s ≤ line.length) (toks : List UInt8) : (peek line s toks).2 ≤ line.length := skip_le le

lemma mem_words_wrap {w : Span} {cmd : Cmd} {rs : List Redir} :
    w ∈ (wrap cmd rs).words ↔ w ∈ cmd.words ∨ ∃ r ∈ rs, r.file = w := by
  induction rs generalizing cmd with
  | nil => simp [wrap]
  | cons r rs ih =>
    have unfolded : wrap cmd (r :: rs) = wrap (.redir cmd r) rs := rfl
    rw [unfolded, ih, Cmd.words, List.mem_append, List.mem_singleton, or_assoc]
    simp [eq_comm]

lemma file_of_redirect {tok : UInt8} {file : Span} {r : Redir} (mem : r ∈ redirect tok file) : r.file = file := by
  unfold redirect at mem
  split at mem
  · rw [List.mem_singleton.mp mem]
  · split at mem
    · rw [List.mem_singleton.mp mem]
    · split at mem
      · rw [List.mem_singleton.mp mem]
      · cases mem

variable (noNul : (0 : UInt8) ∉ line)
include noNul

lemma byte_eq_zero_iff : byte line s = 0 ↔ line.length ≤ s := by
  rw [byte, List.getD_eq_getElem?_getD]
  constructor
  · intro zero
    by_contra less
    rw [List.getElem?_eq_getElem (not_le.mp less), Option.getD_some] at zero
    exact noNul (zero ▸ List.getElem_mem _)
  · intro le
    rw [List.getElem?_eq_none le, Option.getD_none]

lemma lt_of_byte (ne : byte line s ≠ 0) : s < line.length := lt_of_not_ge (mt (byte_eq_zero_iff noNul).mpr ne)

lemma scan_inside {q : Nat} (le : q ≤ line.length) : (scan line q).2 ≤ line.length ∧
    ((scan line q).1 = 97 → (scan line q).2 = skip line plain q) := by
  unfold scan
  dsimp only
  split
  · exact ⟨le, fun word => absurd (show (0 : UInt8) = 97 from word) (by decide)⟩
  · rename_i nonzero
    have less := lt_of_byte noNul nonzero
    split
    · rename_i single
      refine ⟨less, fun word => absurd single ?_⟩
      rw [show byte line q = 97 from word]
      decide
    · split
      · split
        · rename_i second
          exact ⟨lt_of_byte noNul (by rw [second]; decide), fun word =>
            absurd (show (43 : UInt8) = 97 from word) (by decide)⟩
        · exact ⟨less, fun word => absurd (show (62 : UInt8) = 97 from word) (by decide)⟩
      · exact ⟨skip_le le, fun _ => rfl⟩

lemma gettoken_inside (le : s ≤ line.length) : (gettoken line s).next ≤ line.length ∧
    ((gettoken line s).ret = 97 → IsWord line (gettoken line s).span) := by
  obtain ⟨upTo, end_⟩ := scan_inside noNul (skip_le (p := white) le)
  refine ⟨skip_le upTo, fun word => ?_⟩
  have at_ : (gettoken line s).span = ⟨skip line white s, skip line plain (skip line white s)⟩ :=
    congrArg (Span.mk _) (end_ word)
  rw [at_]
  exact ⟨le_skip, skip_le (skip_le le), fun _ => skip_holds, skip_stops⟩

lemma parseredirs_finds (fuel : Nat) (le : s ≤ line.length) :
    Finds line (·.map Redir.file) (parseredirs line fuel s) := by
  induction fuel generalizing s with
  | zero => exact .error
  | succ fuel ih =>
    unfold parseredirs
    dsimp only
    split
    · split
      · exact .error
      · rename_i word
        obtain ⟨inside, isWord⟩ := gettoken_inside noNul (gettoken_inside noNul (peek_le le [60, 62])).1
        refine (ih inside).bind fun rs t le' all => .ok le' fun w mem => ?_
        rw [List.map_append, List.mem_append, List.mem_map] at mem
        rcases mem with ⟨r, mem, rfl⟩ | mem
        · rw [file_of_redirect mem]
          exact isWord (not_not.mp word)
        · exact all w mem
    · exact .ok (peek_le le _) (by simp)

lemma parseargs_finds (fuel : Nat) {argv : List Span} {rs : List Redir} (le : s ≤ line.length)
    (words : ∀ w ∈ argv, IsWord line w) (files : ∀ r ∈ rs, IsWord line r.file) :
    Finds line Cmd.words (parseargs line fuel argv rs s) := by
  have all : ∀ {argv : List Span} {rs : List Redir}, (∀ w ∈ argv, IsWord line w) → (∀ r ∈ rs, IsWord line r.file) →
      ∀ w ∈ (wrap (.exec argv) rs).words, IsWord line w := by
    intro argv rs words files w mem
    rcases mem_words_wrap.mp mem with mem | ⟨r, listed, rfl⟩
    · exact words w mem
    · exact files r listed
  induction fuel generalizing s argv rs with
  | zero => exact .error
  | succ fuel ih =>
    unfold parseargs
    dsimp only
    have inside := peek_le le [124, 41, 38, 59]
    obtain ⟨next, isWord⟩ := gettoken_inside noNul inside
    split
    · exact .ok inside (all words files)
    · split
      · exact .ok next (all words files)
      · split
        · exact .error
        · rename_i word
          split
          · exact .error
          · refine (parseredirs_finds noNul fuel next).bind fun more t le' found => ih le' ?_ ?_
            · intro w mem
              rcases List.mem_append.mp mem with mem | mem
              · exact words w mem
              · rw [List.mem_singleton.mp mem]
                exact isWord (not_not.mp word)
            · intro r mem
              rcases List.mem_append.mp mem with mem | mem
              · exact files r mem
              · exact found _ (List.mem_map_of_mem mem)

lemma parseback_finds (fuel : Nat) {cmd : Cmd} (le : s ≤ line.length) (all : ∀ w ∈ cmd.words, IsWord line w) :
    Finds line Cmd.words (parseback line fuel cmd s) := by
  induction fuel generalizing s cmd with
  | zero => exact .error
  | succ fuel ih =>
    unfold parseback
    dsimp only
    have inside := peek_le le [38]
    split
    · exact ih (gettoken_inside noNul inside).1 all
    · exact .ok inside all

/-- The four functions that call each other. -/
lemma parse_finds (fuel : Nat) : ∀ s ≤ line.length,
    Finds line Cmd.words (parseline line fuel s) ∧ Finds line Cmd.words (parsepipe line fuel s) ∧
    Finds line Cmd.words (parseexec line fuel s) ∧ Finds line Cmd.words (parseblock line fuel s) := by
  have next : ∀ {s}, s ≤ line.length → (gettoken line s).next ≤ line.length := fun le => (gettoken_inside noNul le).1
  have both : ∀ {left right : Cmd}, (∀ w ∈ left.words, IsWord line w) → (∀ w ∈ right.words, IsWord line w) →
      ∀ w ∈ left.words ++ right.words, IsWord line w := by
    intro left right first second w mem
    rcases List.mem_append.mp mem with mem | mem
    · exact first w mem
    · exact second w mem
  induction fuel with
  | zero =>
    intro s _
    unfold parseline parsepipe parseexec parseblock
    exact ⟨.error, .error, .error, .error⟩
  | succ fuel ih =>
    intro s le
    refine ⟨?_, ?_, ?_, ?_⟩
    · unfold parseline
      refine (ih s le).2.1.bind fun cmd t le found =>
        (parseback_finds noNul fuel le found).bind fun cmd t le found => ?_
      dsimp only
      split
      · exact (ih _ (next (peek_le le _))).1.bind fun right u le found' => .ok le (both found found')
      · exact .ok (peek_le le _) found
    · unfold parsepipe
      refine (ih s le).2.2.1.bind fun cmd t le found => ?_
      dsimp only
      split
      · exact (ih _ (next (peek_le le _))).2.1.bind fun right u le found' => .ok le (both found found')
      · exact .ok (peek_le le _) found
    · unfold parseexec
      dsimp only
      split
      · exact (ih _ (peek_le le _)).2.2.2
      · refine (parseredirs_finds noNul fuel (peek_le le _)).bind fun rs t le found => ?_
        refine parseargs_finds noNul fuel le (by simp) fun r mem => ?_
        exact found _ (List.mem_map_of_mem mem)
    · unfold parseblock
      dsimp only
      split
      · exact .error
      · refine (ih _ (next (peek_le le _))).1.bind fun cmd t le found => ?_
        dsimp only
        split
        · exact .error
        · refine (parseredirs_finds noNul fuel (next (peek_le le _))).bind fun rs u le found' => .ok le ?_
          intro w mem
          rcases mem_words_wrap.mp mem with mem | ⟨r, listed, rfl⟩
          · exact found w mem
          · exact found' _ (List.mem_map_of_mem listed)

end

lemma noNul_line (buf : List UInt8) : (0 : UInt8) ∉ buf.takeWhile (· ≠ 0) := fun mem => by
  have := List.mem_takeWhile_imp mem
  simp at this

lemma isWord_of_parsed {fuel : Nat} {buf : List UInt8} {cmd : Cmd} (parsed : parsecmd fuel buf = .ok cmd) :
    ∀ w ∈ cmd.words, IsWord (buf.takeWhile (· ≠ 0)) w := by
  have found := (parse_finds (noNul_line buf) fuel 0 (Nat.zero_le _)).1
  unfold parsecmd at parsed
  dsimp only at parsed
  cases ran : parseline (buf.takeWhile (· ≠ 0)) fuel 0 with
  | error e =>
    rw [ran] at parsed
    cases parsed
  | ok pair =>
    rw [ran] at parsed found
    change (if _ then _ else _) = _ at parsed
    split at parsed
    · cases parsed
    · cases parsed
      exact (found pair.1 pair.2 rfl).2

section

variable {buf : List UInt8}

lemma foldlM_terminate (ws : List Span) (inside : ∀ w ∈ ws, w.eq < buf.length) :
    ws.foldlM terminate buf = some (ws.foldl (fun buf w => buf.set w.eq 0) buf) := by
  induction ws generalizing buf with
  | nil => rfl
  | cons w ws ih =>
    have first : terminate buf w = some (buf.set w.eq 0) := if_pos (inside w (List.mem_cons_self ..))
    rw [List.foldlM_cons, first]
    refine ih fun v mem => ?_
    rw [List.length_set]
    exact inside v (List.mem_cons_of_mem _ mem)

/-- `nulterminate` ends the words one after the other. -/
lemma nulterminate_eq (cmd : Cmd) : nulterminate cmd buf = cmd.words.foldlM terminate buf := by
  induction cmd generalizing buf with
  | exec argv => rfl
  | redir cmd r ih => simp [nulterminate, ih, Cmd.words]
  | pipe left right ih ih' => simp [nulterminate, ih, ih', Cmd.words]
  | list left right ih ih' => simp [nulterminate, ih, ih', Cmd.words]
  | back cmd ih => rw [nulterminate, ih, Cmd.words]

lemma getElem?_foldl_set (ws : List Span) (i : Nat) : (ws.foldl (fun buf w => buf.set w.eq 0) buf)[i]? =
    if i < buf.length ∧ ∃ w ∈ ws, w.eq = i then some 0 else buf[i]? := by
  induction ws generalizing buf with
  | nil => simp
  | cons w ws ih =>
    rw [List.foldl_cons, ih, List.length_set, List.getElem?_set]
    by_cases inside : i < buf.length
    · by_cases here : w.eq = i
      · simp [here, inside]
      · simp [here, inside]
    · simp only [inside, false_and, if_false]
      split
      · rename_i here
        rw [List.getElem?_eq_none (not_lt.mp inside), if_neg (by omega)]
      · rfl

/-- A string is read up to the first `NUL`. -/
lemma cstring_eq {buf' : List UInt8} {w : Span} (le : w.q ≤ w.eq) (ended : buf'[w.eq]? = some 0)
    (same : ∀ i, w.q ≤ i → i < w.eq → buf'[i]? = buf[i]? ∧ buf[i]? ≠ some 0) : cstring buf' w.q = text buf w := by
  have kept : (buf'.drop w.q).take (w.eq - w.q) = text buf w := by
    refine List.ext_getElem? fun i => ?_
    rw [text, List.getElem?_take, List.getElem?_take, List.getElem?_drop, List.getElem?_drop]
    split
    · exact (same _ (by omega) (by omega)).1
    · rfl
  have nonzero : ∀ c ∈ text buf w, decide (c ≠ 0) = true := by
    intro c mem
    obtain ⟨i, at_i⟩ := List.mem_iff_getElem?.mp mem
    rw [text, List.getElem?_take, List.getElem?_drop] at at_i
    split at at_i
    · refine decide_eq_true fun zero => (same (w.q + i) (by omega) (by omega)).2 ?_
      rw [at_i, zero]
    · cases at_i
  have last : ((buf'.drop w.q).drop (w.eq - w.q)).head? = some 0 := by
    rw [List.drop_drop, List.head?_drop, Nat.add_sub_cancel' le, ended]
  obtain ⟨rest, split⟩ := List.head?_eq_some_iff.mp last
  rw [cstring, ← List.take_append_drop (w.eq - w.q) (buf'.drop w.q), kept, split, List.takeWhile_append_of_pos nonzero]
  simp

end

/-- No byte is overwritten outside the buffer, and after `nulterminate` each word of the command is the
string at its place. -/
theorem words_survive (fuel : Nat) (buf : List UInt8) (nul : 0 ∈ buf) (cmd : Cmd)
    (parsed : parsecmd fuel buf = .ok cmd) :
    ∃ buf', nulterminate cmd buf = some buf' ∧ buf'.length = buf.length ∧
      ∀ w ∈ cmd.words, cstring buf' w.q = text buf w := by
  have all := isWord_of_parsed parsed
  have noNul := noNul_line buf
  have start := List.takeWhile_prefix (l := buf) fun c : UInt8 => decide (c ≠ 0)
  have shorter : (buf.takeWhile (· ≠ 0)).length < buf.length := by
    refine lt_of_le_of_ne start.length_le fun same => noNul ?_
    rw [start.eq_of_length same]
    exact nul
  have kept : ∀ i, i < (buf.takeWhile (· ≠ 0)).length → buf[i]? = some (byte (buf.takeWhile (· ≠ 0)) i) := by
    intro i less
    rw [byte, List.getD_eq_getElem?_getD, List.getElem?_eq_getElem less, Option.getD_some, start.getElem less,
      List.getElem?_eq_getElem]
  generalize buf.takeWhile (· ≠ 0) = line at *
  have inside : ∀ w ∈ cmd.words, w.eq < buf.length := fun w mem => (all w mem).upTo.trans_lt shorter
  refine ⟨_, (nulterminate_eq cmd).trans (foldlM_terminate _ inside), ?_, fun w mem => ?_⟩
  · exact List.foldlRecOn (motive := fun b : List UInt8 => b.length = buf.length) _ _ rfl
      fun _ same _ _ => List.length_set.trans same
  · obtain ⟨le, upTo, plains, -⟩ := all w mem
    refine cstring_eq le ?_ fun i le less => ⟨?_, ?_⟩
    · rw [getElem?_foldl_set, if_pos ⟨inside w mem, w, mem, rfl⟩]
    · -- The end of another word is no place inside this one: it is not plain.
      rw [getElem?_foldl_set, if_neg]
      rintro ⟨-, v, mem', rfl⟩
      have stop := (all v mem').stop (less.trans_le upTo)
      rw [plains _ le less] at stop
      cases stop
    · rw [kept i (less.trans_le upTo)]
      intro zero
      exact absurd ((byte_eq_zero_iff noNul).mp (Option.some.inj zero)) (by omega)

/-- In `a>b;c` the word `a` ends at the operator, and `c` at the `NUL` of the line. -/
theorem words_survive_redirection : ∃ cmd buf', parsecmd 9 [97, 62, 98, 59, 99, 0] = .ok cmd ∧
    nulterminate cmd [97, 62, 98, 59, 99, 0] = some buf' ∧ cstring buf' 0 = [97] ∧ cstring buf' 2 = [98] ∧
    cstring buf' 4 = [99] := by
  have parsed : parsecmd 9 [97, 62, 98, 59, 99, 0] =
      .ok (.list (.redir (.exec [⟨0, 1⟩]) ⟨⟨2, 3⟩, 0x601, 1⟩) (.exec [⟨4, 5⟩])) := by decide +kernel
  obtain ⟨buf', ended, -, words⟩ := words_survive 9 _ (by decide) _ parsed
  exact ⟨_, buf', parsed, ended, words ⟨0, 1⟩ (by decide), words ⟨2, 3⟩ (by decide), words ⟨4, 5⟩ (by decide)⟩

end Xv6.Shell
