import Xv6.FsSystem
import Xv6.Shell

/-! Output redirection, from the text of a line of `user/sh.c` to the bytes in the file. `open` puts the
offset at 0 whether it truncates or not, so `>>` overwrites. -/

namespace Xv6.Redirect

open Params FsMachine FsTree FsBlocks FsData FsTable FsOps FsCalls FsRun FsSystem FsImage FileBytes Splice
  Total Runs Shell

/-- The cases `'+'`, which is `>>`, and `'>'` of `parseredirs`. -/
def mode (append : Bool) : Nat := if append then oWronly ||| oCreate else oWronly ||| oCreate ||| oTrunc

variable {n : Nat} {sb : Super} {O : Nat → Prop} {s t u : State n} {p : Fin n} {f : Fin nfile}
  {ip : Slot} {fs : Fs} {append : Bool}

/-- A write to descriptor 1 of which nothing is left. -/
def Wrote (sb : Super) (p : Fin n) (s : State n) (w : List UInt8) (t : State n) : Prop :=
  sysWrite sb p 1 (w[·]?) w.length 0 s = .ok (w.length, t)

/-- The case `REDIR` of `runcmd`, up to the command. -/
def redirected (sb : Super) (p : Fin n) (r : Redir) (file : Path) : M n Int := do
  let _ ← sysClose sb p r.fd
  sysOpen sb p (some file) r.mode

/-- The redirection at `k` is the only one of its command, which does the writes `ws`. The process has a
descriptor 0, so the one that `open` returns is 1. -/
def Runs (sb : Super) (p : Fin n) (line : List UInt8) (k : Nat) (s : State n) (ws : List (List UInt8))
    (u : State n) : Prop :=
  ∃ (fuel : Nat) (r : Redir) (e : Nat) (t : State n), parseredirs line fuel k = .ok ([r], e) ∧
    redirected sb p r (text line r.file) s = .ok (1, t) ∧ Run (Wrote sb p) t ws u

/-- The word after the operator at `k`. -/
def fileAt (line : List UInt8) (k : Nat) : Span := (gettoken line (gettoken line k).next).span

/-- With descriptor 1 closed, `open` finds the file `i` under the path, or makes it, with these bytes. -/
def Target (sb : Super) (p : Fin n) (s : State n) (path : Path) (i : Nat) (bytes : List UInt8) : Prop :=
  ∃ (c : Int) (t : State n) (ip : Slot) (fs : Fs), sysClose sb p 1 s = .ok (c, t) ∧
    create sb (t.proc p).cwd path .file 0 0 (begun t.fs) = .ok (some ip, fs) ∧ (fs.itable ip).copy.type = .file ∧
    (fs.itable ip).inum = i ∧ bytesOf fs i = bytes

lemma redir_of_parsed (tok : (gettoken line k).ret = if append then 43 else 62)
    (parsed : parseredirs line fuel k = .ok ([r], e)) : r = ⟨fileAt line k, mode append, 1⟩ := by
  cases fuel with
  | zero => cases parsed
  | succ fuel =>
    unfold parseredirs at parsed
    dsimp only at parsed
    split at parsed
    · split at parsed
      · cases parsed
      · rw [show (peek line k [60, 62]).2 = skip line white k from rfl, gettoken_skip, tok] at parsed
        cases rest : parseredirs line fuel (gettoken line (gettoken line k).next).next with
        | error e =>
          rw [rest] at parsed
          cases parsed
        | ok pair =>
          rw [rest] at parsed
          have same := congrArg Prod.fst (Except.ok.inj parsed)
          cases append
          · exact (List.cons.inj same).1.symm
          · exact (List.cons.inj same).1.symm
    · cases parsed

lemma copied_list (w start src) (same : ∀ i, src (start + i) = w[i]?) : copied src start w.length = w := by
  induction w generalizing start with
  | nil => rfl
  | cons b w ih =>
    have first : src start = some b := same 0
    rw [List.length_cons, copied, first]
    rw [ih (start + 1) fun i => by rw [add_assoc, add_comm 1, same, List.getElem?_cons_succ]]

lemma ready_of_inv (inv : Inv sb O s) : Ready sb O (uses s) s where
  sound := inv.sound
  pos f isIno := uses_open (by rw [isIno]; decide)
  unlocked f _ := congrFun inv.unlocked _
  alive f isIno := inv.alive _ (uses_open (by rw [isIno]; decide))
  file := inv.readOnly

lemma sysWrite_eq (here : (s.proc p).ofile 1 = some f) (src count answer) :
    sysWrite sb p 1 src count answer s = filewrite sb f src count answer s := by
  have found : argfd p 1 s = .ok (some (1, f), s) := by
    change (Except.ok (((s.proc p).ofile 1).map fun f => ((1 : Fin nofile), f), s) : Except String _) = _
    rw [here]
    rfl
  simp only [sysWrite, bind, StateT.bind, found, Except.bind]

lemma Wrote.put (ready : Ready sb O refs s) (here : (s.proc p).ofile 1 = some f)
    (isIno : (s.ftable f).type = .inode) (writable : (s.ftable f).writable = true)
    (start : (s.ftable f).off ≤ (bytesOf s.fs (inoOf s f)).length) (wrote : Wrote sb p s w t) :
    Ready sb O refs t ∧ Steady s t ∧ arrays t = (arrays s).put f (inoOf s f) w := by
  have all : Readable (w[·]?) w.length := fun i lt => by simpa using lt
  obtain ⟨r, t', ran, ready', steady, step⟩ := (filewrite_safe ready isIno writable all 0).returns
  rw [Wrote, sysWrite_eq here, ran] at wrote
  obtain ⟨rfl, rfl⟩ := Prod.mk.inj (Except.ok.inj wrote)
  refine ⟨ready', steady, ?_⟩
  rcases (if_pos start).mp (step true fun _ => rfl) with ⟨-, eq⟩ | ⟨bad, -⟩
  · rwa [copied_list w 0 _ fun i => by rw [zero_add]] at eq
  · dsimp only at bad
    omega

lemma wrote_put (run : Run (Wrote sb p) s ws u) (ready : Ready sb O refs s) (here : (s.proc p).ofile 1 = some f)
    (isIno : (s.ftable f).type = .inode) (writable : (s.ftable f).writable = true)
    (start : (s.ftable f).off ≤ (bytesOf s.fs (inoOf s f)).length) :
    arrays u = (arrays s).put f (inoOf s f) ws.flatten := by
  induction run with
  | nil s => exact (Arrays.put_nil start).symm
  | @cons s t u w ws step run ih =>
    obtain ⟨ready', steady, eq⟩ := step.put ready here isIno writable start
    obtain ⟨off, file⟩ := steady.file f
    have start' := Arrays.put_start (a := arrays s) start w
    rw [← eq, ← steady.inoOf] at start'
    rw [ih ready' (by rw [steady.proc, here]) (by rw [file, isIno]) (by rw [file, writable]) start', steady.inoOf, eq,
      Arrays.put_put start, List.flatten_cons]

def Emptied (trunc : Prop) [Decidable trunc] (ip : Slot) (fs fs' : Fs) : Prop :=
  (fs'.itable ip).inum = (fs.itable ip).inum ∧
    bytesOf fs' (fs.itable ip).inum = if trunc then [] else bytesOf fs (fs.itable ip).inum

lemma close_bytes [Decidable trunc] (sound : Sound sb O fs refs)
    (pos : 0 < refs ip) (valid : (fs.itable ip).valid = true) (file : (fs.itable ip).copy.type = .file) :
    Safe (fun _ => True) (do (if trunc then itrunc sb ip else pure ()); iunlock ip) fs fun _ =>
      Emptied trunc ip fs := by
  have first : Safe (fun _ => True) (if trunc then itrunc sb ip else pure ()) fs fun _ => Emptied trunc ip fs := by
    unfold Emptied
    split
    · have clean := sound.clean pos valid
      have same : ino fs ip = fs.dinode := by rw [ino, clean, Function.update_eq_self]
      refine (itrunc_safe (.inr trivial) (by rw [same]; exact sound.disk.owned) (by rw [file]; decide)).mono ?_
      rintro _ _ ⟨bm, l, rfl, -⟩
      simp [bytesOf, Dinode.emptied, file]
    · exact safe_pure ⟨rfl, rfl⟩
  refine first.bind fun _ fs' post => safe_get ?_
  split
  · exact safe_throw trivial
  · refine safe_modify ⟨?_, post.2⟩
    rw [← post.1]
    simp

/-- If `r` is a descriptor, it is one for the file in slot `ip`, with the offset 0. -/
def Fresh (p : Fin n) (ip : Slot) (append : Bool) (fs : Fs) (r : Int) (t : State n) : Prop :=
  ∀ fd : Fin nofile, r = fd.val → ∃ f, (t.proc p).ofile fd = some f ∧ (t.ftable f).type = .inode ∧
    (t.ftable f).writable = true ∧ (t.ftable f).off = 0 ∧ inoOf t f = (fs.itable ip).inum ∧
    bytesOf t.fs (fs.itable ip).inum = if append then bytesOf fs (fs.itable ip).inum else []

lemma openFile_fresh (h : Opened sb O s (mode append) ip fs) (file : (fs.itable ip).copy.type = .file) :
    Safe (fun _ => True) (openFile sb p ip (mode append)) { s with fs := fs } (Fresh p ip append fs) := by
  have fails : ∀ {α} {g : M n α} {t}, Safe (fun _ => True) (do let _ ← g; return (-1 : Int)) t (Fresh p ip append fs) :=
    Safe.bind (Ensures.safe fun _ _ _ => trivial) fun _ _ _ => safe_pure fun fd eq => by omega
  apply safe_get
  rw [if_neg (by rw [file]; rintro ⟨⟨⟩, -⟩)]
  refine filealloc_safe.bind fun r t post => ?_
  cases r with
  | none => exact fails
  | some f =>
    obtain ⟨-, rfl⟩ := post
    refine (fdalloc_safe p f).bind fun r t post => ?_
    cases r with
    | none => exact Safe.bind (Ensures.safe fun _ _ _ => trivial) fun _ _ _ => fails
    | some fd =>
      obtain rfl : t = withOfile (taken { s with fs := fs } f) p fd (some f) := post
      refine safe_mod ((onFs_safe (close_bytes h.sound bump_gt h.valid
        file)).bind fun _ t post => safe_pure fun fd' eq => ?_)
      obtain ⟨fs', rfl, inum, bytes⟩ := post
      change (fs'.itable ip).inum = (fs.itable ip).inum at inum
      change bytesOf fs' (fs.itable ip).inum = if _ then [] else bytesOf fs (fs.itable ip).inum at bytes
      obtain rfl : fd = fd' := Fin.ext (by omega)
      refine ⟨f, by simp [withOfile], ?_, ?_, ?_, ?_, ?_⟩
      · simp [file]
      · cases append <;> simp [mode] <;> decide
      · simp [file]
      · simpa [inoOf] using inum
      · refine bytes.trans ?_
        cases append <;> simp [mode, file, oWronly, oCreate, oTrunc]

lemma closed_live (inv : Inv sb O s) (fd) :
    Safe (fun _ => True) (sysClose sb p fd) s fun _ t => Inv sb O t ∧ (t.proc p).live = (s.proc p).live := by
  have same : Safe (fun _ => True) (argfd p fd) s fun _ t => s = t := by
    refine safe_get ?_
    split <;> exact safe_pure rfl
  refine same.bind fun r t eq => ?_
  subst eq
  cases r with
  | none => exact safe_pure ⟨inv, rfl⟩
  | some found =>
    refine safe_mod ((fileclose_safe (fun _ _ => trivial) (inv.withOfile p found.1 none) found.2).bind ?_)
    refine fun _ t post => safe_pure ⟨post.1, ?_⟩
    rw [post.2.1]
    exact withOfile_proc.1

/-- Descriptor 1 is the file `i` from its first byte on. -/
def Stdout (p : Fin n) (i : Nat) (bytes : List UInt8) (r : Int) (t : State n) : Prop :=
  r = 1 → ∃ f, (t.proc p).ofile 1 = some f ∧ (t.ftable f).type = .inode ∧ (t.ftable f).writable = true ∧
    (t.ftable f).off = 0 ∧ inoOf t f = i ∧ bytesOf t.fs i = bytes

lemma redirected_stdout (root : rootIno < sb.ninodes) (inv : Inv sb O s) (live : (s.proc p).live = true)
    (target : Target sb p s path i bytes) (w : Span) :
    Safe (fun _ => True) (redirected sb p ⟨w, mode append, 1⟩ path) s fun r t =>
      Inv sb O t ∧ Stdout p i (if append then bytes else []) r t := by
  obtain ⟨c, t, ip, fs, closed, made, file, rfl, rfl⟩ := target
  obtain ⟨inv, live'⟩ := (closed_live inv 1).ensures _ _ closed
  have same : openInode sb (t.proc p).cwd path (mode append) = create sb (t.proc p).cwd path .file 0 0 :=
    if_pos (by cases append <;> decide)
  have opened := (openInode_opened (E := fun _ => True) (fun _ _ => trivial) (.inl trivial) root inv
    (live'.trans live) path (mode append)).ensures _ _ (by rw [same]; exact made)
  refine safe_bind_eq closed (safe_bind_eq rfl (safe_bind_eq rfl ?_))
  have found : onFs (openInode sb (t.proc p).cwd path (mode append)) { t with fs := begun t.fs } =
      .ok (some ip, { t with fs := fs }) := by
    rw [same, onFs, made]
  refine safe_bind_eq found ?_
  have both : Safe (fun _ => True) (openFile sb p ip (mode append)) { t with fs := fs } fun r u =>
      Done sb O t u ∧ Fresh p ip append fs r u :=
    Ensures.safe fun r u ran =>
      ⟨(openFile_safe (fun _ _ => trivial) inv opened).ensures _ _ ran, (openFile_fresh opened file).ensures _ _ ran⟩
  refine both.bind fun r u post => ?_
  refine safe_bind_eq rfl (safe_pure ⟨?_, fun one => ?_⟩)
  · exact post.1.1.onFs (sound_ended post.1.1.sound) ⟨fun _ _ => rfl, fun _ _ valid => valid⟩ (.of_reaps .refl) rfl
  · exact post.2 1 one

lemma output_bytes (append : Bool) (root : rootIno < sb.ninodes) (inv : Inv sb O s) (live : (s.proc p).live = true)
    (tok : (gettoken line k).ret = if append then 43 else 62) 
    (target : Target sb p s (text line (fileAt line k)) i bytes)
    (runs : Runs sb p line k s ws u) :
    bytesOf u.fs i = ws.flatten ++ (if append then bytes else []).drop ws.flatten.length := by
  obtain ⟨fuel, r, e, t, parsed, ran, run⟩ := runs
  rw [redir_of_parsed tok parsed] at ran
  obtain ⟨after, stdout⟩ := (redirected_stdout root inv live target (fileAt line k)).ensures _ _ ran
  obtain ⟨f, here, isIno, writable, off, inum, bytes⟩ := stdout rfl
  have put := wrote_put run (ready_of_inv after) here isIno writable (by rw [off]; exact Nat.zero_le _)
  have stored := congrFun (congrArg Arrays.bytes put) i
  simpa [Arrays.put, arrays, inum, off, bytes, splice] using stored

/-- `>>` leaves the old contents and the output, and `>` the output alone, just if one of the two is
empty. -/
theorem redirection_appends_iff {n : Nat} {sb : Super} {orphan : Nat → Prop} {s : State n} {p : Fin n}
    (root : rootIno < sb.ninodes) (inv : Inv sb orphan s) (live : (s.proc p).live = true)
    {line line' : List UInt8} {k k' : Nat} (append : (gettoken line k).ret = 43) (trunc : (gettoken line' k').ret = 62)
    (sameFile : text line' (fileAt line' k') = text line (fileAt line k)) {i : Nat} {bytes : List UInt8}
    (target : Target sb p s (text line (fileAt line k)) i bytes) {ws ws' : List (List UInt8)} {u u' : State n}
    (appends : Runs sb p line k s ws u) (writes : Runs sb p line' k' s ws' u') (same : ws'.flatten = ws.flatten) :
    (bytesOf u.fs i = bytes ++ ws.flatten ∧ bytesOf u'.fs i = ws.flatten) ↔ bytes = [] ∨ ws.flatten = [] := by
  rw [output_bytes true root inv live append target appends,
    output_bytes false root inv live trunc (by rwa [sameFile]) writes, same]
  simp only [if_true, Bool.false_eq_true, if_false, List.drop_nil, List.append_nil, and_true]
  constructor
  · intro eq
    have length := congrArg List.length eq
    simp only [List.length_append, List.length_drop] at length
    rw [← List.length_eq_zero_iff, ← List.length_eq_zero_iff]
    omega
  · rintro (empty | empty) <;> simp [empty]

/-- The redirection `line` and one write, if both succeed. -/
def redirectOne (line w : List UInt8) (s : State 1) : Option (State 1) :=
  match parseredirs line 2 0 with
  | .ok ([r], _) =>
    match redirected super 0 r (text line r.file) s with
    | .ok (1, t) =>
      match sysWrite super 0 1 (w[·]?) w.length 0 t with
      | .ok (c, u) => if c = w.length then some u else none
      | .error _ => none
    | _ => none
  | _ => none

lemma runs_of_redirectOne {s u : State 1} (h : redirectOne line w s = some u) : Runs super 0 line 0 s [w] u := by
  unfold redirectOne at h
  split at h
  · rename_i r e parsed
    split at h
    · rename_i t ran
      split at h
      · rename_i c u' wrote
        split at h
        · rename_i all
          cases h
          rw [all] at wrote
          exact ⟨2, r, e, t, parsed, ran, .cons wrote (.nil _)⟩
        · cases h
      · cases h
    · cases h
  · cases h

def target (path : Path) (s : State 1) : Option (Nat × List UInt8) :=
  match sysClose super 0 1 s with
  | .ok (_, t) =>
    match create super (t.proc 0).cwd path .file 0 0 (begun t.fs) with
    | .ok (some ip, fs) =>
      if (fs.itable ip).copy.type = .file then some ((fs.itable ip).inum, bytesOf fs (fs.itable ip).inum) else none
    | _ => none
  | .error _ => none

lemma target_of_eq {s : State 1} (h : target path s = some (i, bytes)) : Target super 0 s path i bytes := by
  unfold target at h
  split at h
  · rename_i c t closed
    split at h
    · rename_i ip fs made
      split at h
      · rename_i file
        obtain ⟨rfl, rfl⟩ := Prod.mk.inj (Option.some.inj h)
        exact ⟨c, t, ip, fs, closed, made, file, rfl, rfl⟩
      · cases h
    · cases h
  · cases h

/-- The process has made `x`, which descriptor 0 is now. -/
def madeX : List (Act 1) := [.open 0 (some [120]) (mode true)]

/-- The empty file `x` after `>> x` and after `>x`, each with the output `c`. -/
theorem redirection_appends_letter : ∃ s u u' : State 1, Run (Step super) start madeX s ∧
    Target super 0 s [120] 2 [] ∧ Runs super 0 [62, 62, 32, 120] 0 s [[99]] u ∧ Runs super 0 [62, 120] 0 s [[99]] u' ∧
    bytesOf u.fs 2 = [99] ∧ bytesOf u'.fs 2 = [99] := by
  have done : (exec (FsCalls.next super) start madeX).any (fun s => (s.proc 0).live = true ∧
      target [120] s = some (2, []) ∧ (redirectOne [62, 62, 32, 120] [99] s).isSome ∧
      (redirectOne [62, 120] [99] s).isSome) = true := by
    decide +kernel
  obtain ⟨s, ran, facts⟩ := (Option.any_eq_true _ _).mp done
  obtain ⟨live, found, appends, writes⟩ := of_decide_eq_true facts
  obtain ⟨u, appends⟩ := Option.isSome_iff_exists.mp appends
  obtain ⟨u', writes⟩ := Option.isSome_iff_exists.mp writes
  have run := run_of_exec (FsCalls.next super) ran
  have boot : Inv super (Orphan image.dinode) start := inv_boot disk_image (by decide) rfl
  have appends := runs_of_redirectOne appends
  have writes := runs_of_redirectOne writes
  have path : text [62, 62, 32, 120] (fileAt [62, 62, 32, 120] 0) = [120] := by decide
  have file : Target super 0 s (text [62, 62, 32, 120] (fileAt [62, 62, 32, 120] 0)) 2 [] := by
    rw [path]
    exact target_of_eq found
  have both := (redirection_appends_iff (by decide) (run_inv (by decide) boot run) live
    (by decide) (by decide) (by decide) file appends writes rfl).mpr (.inl rfl)
  exact ⟨s, u, u', run, target_of_eq found, appends, writes, both⟩

/-- The process has made `x` with `ab` in it. -/
def filledX : List (Act 1) := madeX ++ [.write 0 0 ([97, 98][·]?) 2 0]

theorem redirection_overwrites : ∃ s u : State 1, Run (Step super) start filledX s ∧
    Target super 0 s [120] 2 [97, 98] ∧ Runs super 0 [62, 62, 32, 120] 0 s [[99]] u ∧ bytesOf u.fs 2 = [99, 98] := by
  have done : (exec (FsCalls.next super) start filledX).any (fun s => target [120] s = some (2, [97, 98]) ∧
      (redirectOne [62, 62, 32, 120] [99] s).any fun u => bytesOf u.fs 2 = [99, 98]) = true := by
    decide +kernel
  obtain ⟨s, ran, facts⟩ := (Option.any_eq_true _ _).mp done
  obtain ⟨found, appends⟩ := of_decide_eq_true facts
  obtain ⟨u, appends, bytes⟩ := (Option.any_eq_true _ _).mp appends
  exact ⟨s, u, run_of_exec (FsCalls.next super) ran, target_of_eq found, runs_of_redirectOne appends,
    of_decide_eq_true bytes⟩

end Xv6.Redirect
