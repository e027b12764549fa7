import RemoteFs.Client.Mounting
import RemoteFs.Client.Rewriting

/-!
# Names that are never translated

The loop of `str_replace` looks for the next occurrence behind the last replacement, so a turn that finds
something leaves less to search, however long the replacement is.  That is so because an occurrence is
not empty; the empty string is found where the search begins, again and again.

`fsMount` sends the name of the folder and takes any answer, so it accepts the empty name as any other.
`translation_ends_iff`: after a mount, the names of files and folders are translated if and only if the
name of the folder was not empty.
-/

set_option autoImplicit false

namespace RemoteFs

variable {κ : Type}

/-! ## Coming to an end -/

/-- A call of `str_replace` comes to an end after so many turns, whatever `malloc` returns. -/
def Ends (string : CString) (substr replacement : Option CString) : Prop :=
  ∀ malloc, ∃ turns, (strReplaceMem malloc turns string substr replacement).result ≠ .error .hang

/-- **When the loop comes to an end.**  The other way round there is memory for every turn, and there is
always another. -/
theorem ends_iff {string substr replacement : CString} :
    Ends string (some substr) (some replacement) ↔ substr.chars ≠ [] := by
  constructor
  · intro h hnil
    obtain ⟨turns, hturns⟩ := h plenty
    obtain ⟨-, hresult | ⟨-, k, n, -, hfail⟩⟩ :=
      strReplaceMem_eq plenty turns string substr replacement
    · rw [hnil, replaceLoop_nil] at hresult
      exact hturns hresult
    · cases hfail
  · intro hne malloc
    exact ⟨string.strlen + 1, strReplaceMem_ne_hang malloc replacement hne (Nat.lt_succ_self _)⟩

/-- The calls of `str_replace` come to an end that are made for a name. -/
structure TranslationEnds (cl : Client) (name : CString) : Prop where
  /-- `str_replace(name, mountedDir, alias)`, in `fsOpenDir`, `fsOpen` and `fsRemove`. -/
  mount : Ends name cl.mountedDir (some cl.alias_)
  /-- `str_replace(mountedPath, "/../", "/")`, in `fsOpen` and `fsRemove`. -/
  up : ∀ mountedPath, Ends mountedPath (some (.lit "/../")) (some (.lit "/"))

/-! ## After a mount -/

/-- `fsMount` accepts every name, and remembers it. -/
theorem fsMount_eq_ok {K : Kernel κ} {cl : Client} {folder : CString} {a : Attempt} {w : World κ}
    {out : Outcome κ} (h : cl.fsMount K folder a w = .ok out) :
    out.value = 0 ∧ out.client.mountedDir = some folder := by
  obtain ⟨⟨ret, w'⟩, -, h⟩ := bind_eq_ok.mp h
  obtain ⟨id, -, h⟩ := bind_eq_ok.mp h
  split at h
  · cases h
  · split at h
    · cases h
    · cases h
      exact ⟨rfl, rfl⟩

/-- **When path translation comes to an end.**  After every mount that has come back, whatever the server
has answered, and for every name: exactly if the name of the mount folder is not empty. -/
theorem translation_ends_iff {K : Kernel κ} {cl : Client} {folder : CString} {a : Attempt} {w : World κ}
    {out : Outcome κ} (hmount : cl.fsMount K folder a w = .ok out) (name : CString) :
    TranslationEnds out.client name ↔ folder.chars ≠ [] := by
  obtain ⟨-, hfolder⟩ := fsMount_eq_ok hmount
  constructor
  · intro h
    have hends := h.mount
    rw [hfolder] at hends
    exact ends_iff.mp hends
  · intro hne
    refine ⟨?_, fun _ ↦ ends_iff.mpr (by decide)⟩
    rw [hfolder]
    exact ends_iff.mpr hne

/-! ## Runs -/

/-- A client that mounts a folder of a server for `/srv`. -/
theorem fsMount_of_start (folder : CString) (hlen : folder.strlen + 1 < 2 ^ 31) :
    ∃ out, mountedClient.fsMount (FileSystem.kernel .lowest) folder .quiet (.start (.lit "/srv") {})
        = .ok out := by
  have hmeets : Attempt.quiet.Meets (FileSystem.kernel .lowest) .fsMount [.str folder]
      (.start (.lit "/srv") {}) .mount (.start (.lit "/srv") {}) :=
    ⟨rfl, [.str folder hlen], .cons (Param.passes_str _ _) .nil, rfl⟩
  have hremote : remote (FileSystem.kernel .lowest) .fsMount [.str folder] .quiet
      (.start (.lit "/srv") {}) = mountClient (.start (.lit "/srv") {}) := remote_of_meets rfl hmeets
  have hshort : (World.start (.lit "/srv") ({} : FileSystem)).srv.mountedDir.strlen < 256 := by decide
  exact ⟨_, fsMount_of_remote (by decide) (hremote.trans (mountClient_of_lt hshort))⟩

/-- Under `mnt`, every name is translated. -/
theorem translation_ends_of_mnt :
    ∃ out, mountedClient.fsMount (FileSystem.kernel .lowest) (.lit "mnt") .quiet
        (.start (.lit "/srv") {}) = .ok out ∧ ∀ name, TranslationEnds out.client name := by
  obtain ⟨out, hout⟩ := fsMount_of_start (.lit "mnt") (by decide)
  exact ⟨out, hout, fun name ↦ (translation_ends_iff hout name).mpr (by decide)⟩

/-- The empty name is accepted, and then no name is. -/
theorem translation_never_ends :
    ∃ out, mountedClient.fsMount (FileSystem.kernel .lowest) (.lit "") .quiet
        (.start (.lit "/srv") {}) = .ok out ∧ out.value = 0 ∧
      ∀ name, ¬ TranslationEnds out.client name := by
  obtain ⟨out, hout⟩ := fsMount_of_start (.lit "") (by decide)
  obtain ⟨hvalue, hfolder⟩ := fsMount_eq_ok hout
  refine ⟨out, hout, hvalue, fun name h ↦ ?_⟩
  have hends := h.mount
  rw [hfolder] at hends
  exact ends_iff.mp hends rfl

end RemoteFs
