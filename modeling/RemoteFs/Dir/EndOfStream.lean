import RemoteFs.Dir.Listing

/-!
# The end of a directory, and errors

`readdir` returns `NULL` at the end of the stream and when it fails, and only `errno` tells one from
the other.  `fsReadDir` remembers `errno` before the call and looks whether it has changed; it does
not set it to zero.  So what an earlier request has left there decides whether a failure is seen.

* `repeated_error_hidden`: a disk fails twice with the same number.  The second time the client is
  told that the directory ends there.
* `end_of_stream_iff`: an outcome reaches the client as what it is, if and only if it is no failure
  with the very number that `errno` has on the server already (or that number is what the client's
  own `errno` happens to hold).
-/

set_option autoImplicit false

namespace RemoteFs

variable {κ : Type}

/-- What the caller of `fsReadDir` should be told for an outcome of `readdir`. -/
def Told (cl : Client) (ent : Except Errno (Option Dirent)) (out : Pointed κ FsDirent) : Prop :=
  match ent with
  | .ok (some ent) => out.value = some ent.entry ∧ out.client = cl
  | .ok none => out.value = none ∧ out.client = cl
  | .error e => out.value = none ∧ out.client = { cl with errno := e.1 }

section
variable {K : Kernel κ} {w w₁ : World κ} {folder : Int32} {d : Dir}

/-- A failure is answered with its number if `errno` had another value before, and otherwise like
the end of the stream. -/
theorem readDirNum_of_error (hd : w.dirOf folder = some d) {e : Errno}
    (h : (K.readdir w.kern d).1 = .error e) :
    ∃ w', readDirNum K folder w
      = .ok (if e.1 ≠ w.srv.errno then .int e.1 else .null, w') := by
  obtain ⟨found, hfound, rfl⟩ := Option.map_eq_some_iff.mp hd
  have herrno := World.after_errno_of_error w (.readdir found.dir) _ h
  simp only [readDirNum, hfound, h, herrno]
  split
  · exact ⟨_, rfl⟩
  · exact ⟨_, rfl⟩

variable {cl : Client} {a : Attempt}

/-- The client gets the server's reply, whatever the others ask for before. -/
theorem fsReadDir_eq {w' : World κ} {ret : ReturnType} {out : Option FsDirent × Client}
    (hothers : serveAll K a.others w = .ok w₁) (h : readDirNum K folder w₁ = .ok (ret, w'))
    (hret : cl.receiveDirent ret = .ok out) :
    cl.fsReadDir K folder a w = .ok ⟨out.1, out.2, w'⟩ := by
  have hparams : List.Forall₂ Param.Passes [.int cl.id, .int folder] [.int cl.id, .int folder] :=
    .cons (Param.passes_int _) (.cons (Param.passes_int _) .nil)
  have hop : Request.op ⟨.fsReadDir, [.int cl.id, .int folder], a.garbage⟩
      = .ok (.readDir folder) := Request.op_readDir
  have hremote : remote K .fsReadDir [.int cl.id, .int folder] a w = .ok (ret, w') :=
    (remote_eq K hothers hparams rfl).trans ((serve_of_op hop).trans h)
  simp only [Client.fsReadDir, hremote, hret, bind, Except.bind]
  rfl

end

/-- **When the end of a directory is not confused with an error.**  For every state of the server
in which the client's handle denotes a stream, whatever `errno` has been left at, and every outcome
of `readdir`: `fsReadDir` returns the entry, or `NULL` with `errno` as it was for the end of the
stream, or `NULL` with the error number for a failure, if and only if a failure has another number
than the server's `errno` had before, or a number that the client's `errno` has already. -/
theorem end_of_stream_iff (K : Kernel κ) (cl : Client) {folder : Int32} {a : Attempt}
    {w w₁ : World κ} (hothers : serveAll K a.others w = .ok w₁) {d : Dir}
    (hd : w₁.dirOf folder = some d) :
    (∃ out, cl.fsReadDir K folder a w = .ok out ∧ Told cl (K.readdir w₁.kern d).1 out) ↔
      ∀ e, (K.readdir w₁.kern d).1 = .error e → e.1 ≠ w₁.srv.errno ∨ e.1 = cl.errno := by
  cases hent : (K.readdir w₁.kern d).1 with
  | ok ent =>
    obtain ⟨w', hread, -⟩ := readDirNum_of_readdir hd (Prod.ext hent rfl)
    have hcall := fsReadDir_eq hothers hread (receiveDirent_replyOf cl ent)
    refine iff_of_true ⟨_, hcall, ?_⟩ nofun
    cases ent with
    | some ent => exact ⟨rfl, rfl⟩
    | none => exact ⟨rfl, rfl⟩
  | error e =>
    obtain ⟨w', hread⟩ := readDirNum_of_error hd hent
    simp only [Except.error.injEq, forall_eq']
    by_cases he : e.1 ≠ w₁.srv.errno
    · rw [if_pos he] at hread
      have hcall := fsReadDir_eq hothers hread (receiveDirent_int cl e.1)
      exact iff_of_true ⟨_, hcall, rfl, rfl⟩ (.inl he)
    · -- the server takes the failure for the end of the stream
      rw [if_neg he] at hread
      have hcall := fsReadDir_eq hothers hread (receiveDirent_null cl)
      constructor
      · rintro ⟨out, hout, -, hclient⟩
        cases hcall.symm.trans hout
        exact .inr (congrArg Client.errno hclient).symm
      · intro h
        refine ⟨_, hcall, rfl, ?_⟩
        show cl = { cl with errno := e.1 }
        rw [h.resolve_left he]

/-! ## A disk that fails -/

def EIO : Errno := ⟨5, by decide⟩

/-- A file system whose directories cannot be read. -/
def failingDisk : Kernel FileSystem :=
  { FileSystem.kernel .lowest with readdir := fun fs _ ↦ (.error EIO, fs) }

/-- A server with an open directory. -/
def listedWorld : World FileSystem where
  srv := { mountedDir := .lit "/srv", openDirId := 2, openDirQueue := [⟨2, 0⟩] }
  kern := { names := [(.lit "/srv/d", .dir [])], streams := [(0, [])], nextDir := 1 }

/-- The first failure is reported. -/
theorem end_of_stream_iff_of_first :
    ∃ out, mountedClient.fsReadDir failingDisk 2 .quiet listedWorld = .ok out ∧
      Told mountedClient (.error EIO) out := by
  have hd : listedWorld.dirOf 2 = some 0 := rfl
  refine (end_of_stream_iff failingDisk mountedClient rfl hd).mpr fun e he ↦ .inl ?_
  cases he
  decide

/-- The second one is not: client 1 opens a directory, its first `fsReadDir` fails, and the next one
tells it that the directory is empty. -/
theorem repeated_error_hidden :
    ∃ es w, ServerRun failingDisk Run.free (.lit "/srv")
        { names := [(.lit "/srv/d", .dir [])] } es w ∧ w.dirOf 2 = some 0 ∧
      (failingDisk.readdir w.kern 0).1 = .error EIO ∧
      (∃ w', mountedClient.fsReadDir failingDisk 2 .quiet w = .ok ⟨none, mountedClient, w'⟩) ∧
      ¬ ∃ out, mountedClient.fsReadDir failingDisk 2 .quiet w = .ok out ∧
        Told mountedClient (failingDisk.readdir w.kern 0).1 out := by
  obtain ⟨es, w, hrun, hw⟩ := exists_run failingDisk Run.free (.lit "/srv")
    { names := [(.lit "/srv/d", .dir [])] }
    [.openDir 1 (.lit "/srv/d") (by decide), .readDir 1 2]
    (fun _ w ↦ decide (w.dirOf 2 = some 0) && decide (w.srv.errno = 5)) (by decide)
  obtain ⟨hd, herrno⟩ : w.dirOf 2 = some 0 ∧ w.srv.errno = 5 := by simpa using hw
  have hfail : (failingDisk.readdir w.kern 0).1 = .error EIO := rfl
  obtain ⟨w', hread⟩ := readDirNum_of_error hd hfail
  rw [herrno, if_neg (by decide)] at hread
  have hcall : mountedClient.fsReadDir failingDisk 2 .quiet w = .ok ⟨none, mountedClient, w'⟩ :=
    fsReadDir_eq rfl hread (receiveDirent_null mountedClient)
  refine ⟨es, w, hrun, hd, hfail, ⟨w', hcall⟩, ?_⟩
  rintro ⟨out, hout, -, hclient⟩
  cases hcall.symm.trans hout
  have herrno : mountedClient.errno = EIO.1 := congrArg Client.errno hclient
  exact absurd herrno (by decide)

end RemoteFs
