import RemoteFs.Client.Names

/-!
# Below the mount point

A name below the mount point is the folder's name, a slash and a remainder, and the remainder is the
client's to choose.  `fsOpenDir` does not replace the folder's name in front: it searches the whole
name for it, the remainder included.

* `remainder_rewritten`: for the folder `mnt`, the remainder `mnt` is sent as `/srv`.
* `mount_point_only_iff`: a remainder is sent as it is if and only if the folder's name is not found
  again from the slash on; two of those are never sent alike; and there are always others, unless
  the alias is the folder's name itself.
-/

set_option autoImplicit false

namespace RemoteFs

/-- A directory, a slash and what is below it. -/
def CString.below (dir rest : CString) : CString :=
  ⟨dir.chars ++ 47 :: rest.chars, by
    rw [List.mem_append, List.mem_cons]
    rintro (hdir | hslash | hrest)
    · exact dir.noNul hdir
    · exact absurd hslash (by decide)
    · exact rest.noNul hrest⟩

theorem CString.below_injective {dir r₁ r₂ : CString} (h : dir.below r₁ = dir.below r₂) :
    r₁ = r₂ := by
  have hchars : dir.chars ++ 47 :: r₁.chars = dir.chars ++ 47 :: r₂.chars := congrArg chars h
  exact ext_chars (List.cons.inj (List.append_cancel_left hchars)).2

/-- The remainder is sent as it is, below the directory of the server. -/
def SentBelow (cl : Client) (folder rest : CString) : Prop :=
  (ApiCall.fsOpenDir (folder.below rest)).params cl = .ok [.int cl.id, .str (cl.alias_.below rest)]

/-- What the search finds behind the mount point decides. -/
theorem sentBelow_iff {cl : Client} {folder : CString} (hmount : cl.mountedDir = some folder)
    (hne : folder.chars ≠ []) {rest : CString} :
    SentBelow cl folder rest ↔ ¬ folder.chars <:+: 47 :: rest.chars ∨ cl.alias_ = folder := by
  obtain ⟨path, hpath⟩ : ∃ path,
      strReplace (folder.below rest) (some folder) (some cl.alias_) = .ok path :=
    strReplace_isOk_iff.mpr hne
  obtain ⟨new, hnew, hreplaced⟩ := (replaced_of_strReplace hpath).exists_of_append rfl
  have hsame : path = cl.alias_.below rest ↔ new = 47 :: rest.chars := by
    constructor
    · intro h
      have hchars : path.chars = cl.alias_.chars ++ 47 :: rest.chars := congrArg CString.chars h
      exact List.append_cancel_left (hnew.symm.trans hchars)
    · intro h
      exact CString.ext_chars (by rw [hnew, h]; rfl)
  have halias : cl.alias_ = folder ↔ cl.alias_.chars = folder.chars :=
    ⟨congrArg CString.chars, CString.ext_chars⟩
  rw [SentBelow, fsOpenDir_params_iff, Client.translateDir, hmount, hpath, Except.ok.injEq, hsame,
    hreplaced.eq_self_iff, halias]

/-- **What the mount point's translation leaves alone.**  For a client with a mount folder, a
remainder of a name below it is sent unchanged, below the directory of the server, if and only if
the folder's name does not stand in it again (from the slash on), or the directory's name is the
folder's.  Two remainders of which this is true are never sent as the same path.  It is true of all
remainders only in the second case. -/
theorem mount_point_only_iff {cl : Client} {folder : CString}
    (hmount : cl.mountedDir = some folder) (hne : folder.chars ≠ []) :
    (∀ rest : CString, SentBelow cl folder rest ↔
      ¬ folder.chars <:+: 47 :: rest.chars ∨ cl.alias_ = folder) ∧
    (∀ r₁ r₂ : CString, (¬ folder.chars <:+: 47 :: r₁.chars ∨ cl.alias_ = folder) →
      (¬ folder.chars <:+: 47 :: r₂.chars ∨ cl.alias_ = folder) →
      (ApiCall.fsOpenDir (folder.below r₁)).params cl
        = (ApiCall.fsOpenDir (folder.below r₂)).params cl → r₁ = r₂) ∧
    ((∀ rest : CString, SentBelow cl folder rest) ↔ cl.alias_ = folder) := by
  refine ⟨fun rest ↦ sentBelow_iff hmount hne, ?_, ?_⟩
  · intro r₁ r₂ h₁ h₂ hsame
    have hsent₁ : SentBelow cl folder r₁ := (sentBelow_iff hmount hne).mpr h₁
    have hsent₂ : SentBelow cl folder r₂ := (sentBelow_iff hmount hne).mpr h₂
    have hpath₁ := fsOpenDir_params_iff.mp hsent₁
    have hpath₂ := fsOpenDir_params_iff.mp (hsame.trans hsent₂)
    exact CString.below_injective (Except.ok.inj (hpath₁.symm.trans hpath₂))
  · constructor
    · intro h
      -- the folder's name is itself a remainder
      refine ((sentBelow_iff hmount hne).mp (h folder)).resolve_left fun hnot ↦ hnot ?_
      exact (List.suffix_cons _ _).isInfix
    · intro h rest
      exact (sentBelow_iff hmount hne).mpr (.inr h)

/-- A remainder without the folder's name in it. -/
theorem mount_point_only_of_file : SentBelow mountedClient (.lit "mnt") (.lit "a") :=
  ((mount_point_only_iff rfl (by decide)).1 (.lit "a")).mpr (.inl (by decide))

/-- The folder's name again, as a remainder, is replaced too: two names are sent as one path, and no
name below the folder is sent as the path of this file. -/
theorem remainder_rewritten :
    ¬ SentBelow mountedClient (.lit "mnt") (.lit "mnt") ∧
    (ApiCall.fsOpenDir (.lit "mnt/mnt")).params mountedClient
      = (ApiCall.fsOpenDir (.lit "mnt//srv")).params mountedClient ∧
    ∀ rest : CString, (ApiCall.fsOpenDir (CString.below (.lit "mnt") rest)).params mountedClient
      ≠ .ok [.int 1, .str (.lit "/srv/mnt")] := by
  have hmount : mountedClient.mountedDir = some (.lit "mnt") := rfl
  refine ⟨?_, ?_, fun rest h ↦ ?_⟩
  · rw [sentBelow_iff hmount (by decide)]
    exact not_or.mpr ⟨fun hnot ↦ hnot (List.suffix_cons _ _).isInfix, by decide⟩
  · have hfirst : mountedClient.translateDir (.lit "mnt/mnt") = .ok (.lit "/srv//srv") := by decide
    have hsecond : mountedClient.translateDir (.lit "mnt//srv") = .ok (.lit "/srv//srv") := by
      decide
    rw [fsOpenDir_params_iff.mpr hfirst, fsOpenDir_params_iff.mpr hsecond]
  · have hpath := fsOpenDir_params_iff.mp h
    obtain ⟨new, hnew, hreplaced⟩ := (replaced_of_strReplace hpath).exists_of_append rfl
    have hsrv : (CString.lit "/srv/mnt").chars
        = mountedClient.alias_.chars ++ 47 :: (CString.lit "mnt").chars := by decide
    have hslash := List.append_cancel_left (hnew.symm.trans hsrv)
    rcases hreplaced.eq_or_infix with ⟨hsame, hnot⟩ | hin
    · rw [← hsame, hslash] at hnot
      exact absurd (List.suffix_cons _ _).isInfix hnot
    · rw [hslash] at hin
      exact absurd hin (by decide)

end RemoteFs
