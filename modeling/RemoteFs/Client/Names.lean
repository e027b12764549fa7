import RemoteFs.Client.Calls
import RemoteFs.Server.Confinement

/-!
# The names the server gets

`fsOpenDir` replaces the name of the mount folder in a name by the directory of the server;
`fsOpen` and `fsRemove` do the same and then replace `/../` by `/`.  Both replacements go through
the whole string.  `Client.target` is what a name should become: its mount point, and nothing else,
replaced.

* `names_disagree`: for a name with a `/../` in it the calls send different paths, and the file that
  is opened is not the one that was meant.
* `names_agree`: all three send the target, if and only if the name is `Plain`.
-/

set_option autoImplicit false

namespace RemoteFs

variable {κ : Type}

/-! ## What a name should become -/

/-- What stands behind the mount point in a name: behind the name of the folder, if that ends where
a component of the path does. -/
def behind (folder name : Bytes) : Option Bytes :=
  let rest := name.drop folder.length
  if folder <+: name ∧ (folder.getLast? = some 47 ∨ rest.head? = none ∨ rest.head? = some 47) then
    some rest
  else none

/-- The slash that is missing between a directory and what is to stand behind it. -/
def joint (dir rest : Bytes) : Bytes :=
  if rest.head? ≠ none ∧ rest.head? ≠ some 47 ∧ dir.getLast? ≠ some 47 then [47] else []

/-- The name with its mount point replaced. -/
def retarget (folder alias_ name : Bytes) : Bytes :=
  match behind folder name with
  | none => name
  | some rest => alias_ ++ joint alias_ rest ++ rest

theorem retarget_noNul (folder alias_ name : CString) :
    (0 : UInt8) ∉ retarget folder.chars alias_.chars name.chars := by
  rw [retarget]
  split
  · exact name.noNul
  · rename_i rest hrest
    simp only [behind, Option.ite_none_right_eq_some, Option.some.injEq] at hrest
    have hjoint : (0 : UInt8) ∉ joint alias_.chars rest := by
      rw [joint]
      split <;> decide
    simp only [List.mem_append, not_or]
    exact ⟨⟨alias_.noNul, hjoint⟩, fun h ↦ name.noNul (List.mem_of_mem_drop (hrest.2 ▸ h))⟩

/-- **The path a name stands for**, for a client with a mount folder: the name with its mount point
replaced by the directory of the server. -/
def Client.target (cl : Client) (folder name : CString) : CString :=
  ⟨retarget folder.chars cl.alias_.chars name.chars, retarget_noNul folder cl.alias_ name⟩

/-- `/../` -/
def upStep : Bytes := [47, 46, 46, 47]

/-- The names for which rewriting the text is as good as replacing the mount point. -/
structure Plain (cl : Client) (folder name : CString) : Prop where
  /-- There is something to look for. -/
  nonempty : folder.chars ≠ []
  /-- The name of the folder is not found again, or is its own replacement. -/
  once : ¬ folder.chars <:+: (behind folder.chars name.chars).getD name.chars ∨
    cl.alias_.chars = folder.chars
  /-- No slash is missing. -/
  joined : ∀ rest, behind folder.chars name.chars = some rest → joint cl.alias_.chars rest = []
  /-- The path does not go up. -/
  noUp : ¬ upStep <:+: (cl.target folder name).chars

theorem eq_append_of_behind {folder name rest : Bytes} (h : behind folder name = some rest) :
    name = folder ++ rest ∧
      (folder.getLast? = some 47 ∨ rest.head? = none ∨ rest.head? = some 47) := by
  simp only [behind, Option.ite_none_right_eq_some, Option.some.injEq] at h
  obtain ⟨⟨⟨rest', rfl⟩, hend⟩, rfl⟩ := h
  rw [List.drop_left] at hend ⊢
  exact ⟨rfl, hend⟩

/-- A slash that is missing is not made up by the replacements. -/
theorem joint_eq_nil_of_replaced {folder alias_ rest new : Bytes}
    (hend : folder.getLast? = some 47 ∨ rest.head? = none ∨ rest.head? = some 47)
    (h : Replaced folder alias_ rest new) (hnew : new = joint alias_ rest ++ rest) :
    joint alias_ rest = [] := by
  by_contra hjoint
  rw [joint, ite_eq_right_iff, Classical.not_imp] at hjoint
  obtain ⟨hmissing, -⟩ := hjoint
  have hcons : new = 47 :: rest := by
    rw [hnew, joint, if_pos hmissing]
    rfl
  obtain ⟨hnone, hslash, hdir⟩ := hmissing
  have halias := h.eq_cons hcons hslash
  have hfolder := hend.resolve_right (not_or.mpr ⟨hnone, hslash⟩)
  rw [halias, List.getLast?_cons, hfolder] at hdir
  exact hdir rfl

/-- **Replacing everywhere and replacing the mount point** come to the same exactly for a name that
has the folder's name in it as its mount point only. -/
theorem eq_retarget_iff {folder alias_ name new : Bytes}
    (h : Replaced folder alias_ name new) :
    new = retarget folder alias_ name ↔
      (¬ folder <:+: (behind folder name).getD name ∨ alias_ = folder) ∧
        ∀ rest, behind folder name = some rest → joint alias_ rest = [] := by
  cases hbehind : behind folder name with
  | none =>
    rw [retarget, hbehind, h.eq_self_iff]
    simp
  | some rest =>
    obtain ⟨hname, hend⟩ := eq_append_of_behind hbehind
    obtain ⟨new', rfl, hnew'⟩ := h.exists_of_append hname
    have htarget : retarget folder alias_ name = alias_ ++ (joint alias_ rest ++ rest) := by
      simp only [retarget, hbehind, List.append_assoc]
    rw [htarget, List.append_right_inj, Option.getD_some, ← hnew'.eq_self_iff]
    simp only [Option.some.injEq, forall_eq']
    constructor
    · intro heq
      have hjoint := joint_eq_nil_of_replaced hend hnew' heq
      rw [hjoint] at heq
      exact ⟨heq, hjoint⟩
    · rintro ⟨heq, hjoint⟩
      rw [heq, hjoint]
      rfl

/-! ## What the calls send -/

/-- All three calls send the path for the name. -/
structure AllSend (cl : Client) (name : CString) (mode : Int32) (path : CString) : Prop where
  openDir : (ApiCall.fsOpenDir name).params cl = .ok [.int cl.id, .str path]
  open_ : (ApiCall.retry (.fsOpen name mode)).params cl
    = .ok [.int cl.id, .int mode, .str path]
  remove : (ApiCall.retry (.fsRemove name)).params cl = .ok [.int cl.id, .str path]

theorem Param.str_injective {s t : CString} (h : Param.str s = Param.str t) : s = t := by
  have hmem : s.chars ++ [0] = t.chars ++ [0] := congrArg Param.pval h
  exact CString.ext_chars (List.append_cancel_right hmem)

/-- Only the path of these calls is computed. -/
theorem bind_str_eq_ok {x : Except Fault CString} {path : CString} (front : List Param) :
    (x >>= fun s ↦ .ok (front ++ [.str s])) = .ok (front ++ [.str path]) ↔ x = .ok path := by
  constructor
  · intro h
    obtain ⟨path', hpath', hsend⟩ := bind_eq_ok.mp h
    have hlast := List.append_cancel_left (Except.ok.inj hsend)
    rw [hpath', Param.str_injective (List.cons.inj hlast).1]
  · intro h
    rw [h]
    rfl

theorem fsOpenDir_params_iff {cl : Client} {name path : CString} :
    (ApiCall.fsOpenDir name).params cl = .ok [.int cl.id, .str path] ↔
      cl.translateDir name = .ok path :=
  bind_str_eq_ok [.int cl.id]

theorem fsOpen_params_iff {cl : Client} {name path : CString} {mode : Int32} :
    (ApiCall.retry (.fsOpen name mode)).params cl = .ok [.int cl.id, .int mode, .str path] ↔
      cl.translate name = .ok path :=
  bind_str_eq_ok [.int cl.id, .int mode]

theorem fsRemove_params_iff {cl : Client} {name path : CString} :
    (ApiCall.retry (.fsRemove name)).params cl = .ok [.int cl.id, .str path] ↔
      cl.translate name = .ok path :=
  bind_str_eq_ok [.int cl.id]

theorem allSend_iff {cl : Client} {name path : CString} {mode : Int32} :
    AllSend cl name mode path ↔ cl.translateDir name = .ok path ∧ cl.translate name = .ok path := by
  constructor
  · intro h
    exact ⟨fsOpenDir_params_iff.mp h.openDir, fsRemove_params_iff.mp h.remove⟩
  · rintro ⟨hdir, htranslate⟩
    exact ⟨fsOpenDir_params_iff.mpr hdir, fsOpen_params_iff.mpr htranslate,
      fsRemove_params_iff.mpr htranslate⟩

/-- **The three calls agree** exactly on the names whose path has no `/../` in it. -/
theorem allSend_iff_of_translateDir {cl : Client} {name path : CString} {mode : Int32}
    (h : cl.translateDir name = .ok path) :
    AllSend cl name mode path ↔ ¬ upStep <:+: path.chars := by
  have htranslate : cl.translate name
      = strReplace path (some (.lit "/../")) (some (.lit "/")) := by
    rw [Client.translate, ← Client.translateDir, h]
    rfl
  obtain ⟨path', hpath'⟩ : ∃ path',
      strReplace path (some (.lit "/../")) (some (.lit "/")) = .ok path' :=
    strReplace_isOk_iff.mpr (by decide)
  have hreplaced : Replaced upStep [47] path.chars path'.chars := replaced_of_strReplace hpath'
  have hiff : path'.chars = path.chars ↔ ¬ upStep <:+: path.chars :=
    hreplaced.eq_self_iff.trans (or_iff_left (by decide))
  rw [allSend_iff, htranslate, hpath', ← hiff]
  constructor
  · rintro ⟨-, heq⟩
    rw [Except.ok.inj heq]
  · intro heq
    exact ⟨h, by rw [CString.ext_chars heq]⟩

/-- What `fsOpenDir` sends is the target exactly if the mount point is all that was replaced. -/
theorem translateDir_eq_target_iff {cl : Client} {folder name : CString}
    (hmount : cl.mountedDir = some folder) :
    cl.translateDir name = .ok (cl.target folder name) ↔
      folder.chars ≠ [] ∧
      (¬ folder.chars <:+: (behind folder.chars name.chars).getD name.chars ∨
        cl.alias_.chars = folder.chars) ∧
      ∀ rest, behind folder.chars name.chars = some rest → joint cl.alias_.chars rest = [] := by
  rw [Client.translateDir, hmount]
  by_cases hne : folder.chars = []
  · refine iff_of_false (fun h ↦ ?_) fun h ↦ h.1 hne
    exact strReplace_isOk_iff.mp ⟨_, h⟩ hne
  · obtain ⟨path, hpath⟩ : ∃ path, strReplace name (some folder) (some cl.alias_) = .ok path :=
      strReplace_isOk_iff.mpr hne
    have hiff := eq_retarget_iff (replaced_of_strReplace hpath)
    rw [hpath, Except.ok.injEq, and_iff_right hne, ← hiff]
    exact ⟨fun h ↦ by rw [h]; rfl, fun h ↦ CString.ext_chars h⟩

/-- **Which names the path calls agree on.**  For a plain name all three calls send one path, and it
resolves to the file the name stands for; and they all send the very path the name stands for only
if the name is plain. -/
theorem names_agree {cl : Client} {folder : CString} (hmount : cl.mountedDir = some folder)
    (name : CString) (mode : Int32) :
    (Plain cl folder name → ∃ path, AllSend cl name mode path ∧
      resolve path = resolve (cl.target folder name)) ∧
    (AllSend cl name mode (cl.target folder name) ↔ Plain cl folder name) := by
  have hiff : AllSend cl name mode (cl.target folder name) ↔ Plain cl folder name := by
    constructor
    · intro h
      have hdir := (allSend_iff.mp h).1
      obtain ⟨hne, honce, hjoined⟩ := (translateDir_eq_target_iff hmount).mp hdir
      exact ⟨hne, honce, hjoined, (allSend_iff_of_translateDir hdir).mp h⟩
    · intro h
      have hdir := (translateDir_eq_target_iff hmount).mpr ⟨h.nonempty, h.once, h.joined⟩
      exact (allSend_iff_of_translateDir hdir).mpr h.noUp
  exact ⟨fun h ↦ ⟨_, hiff.mpr h, rfl⟩, hiff⟩

/-- A name under the mount folder. -/
theorem names_agree_of_plain :
    AllSend mountedClient (.lit "mnt/a/b") 0 (.lit "/srv/a/b") := by
  have hbehind : behind (CString.lit "mnt").chars (CString.lit "mnt/a/b").chars
      = some (CString.lit "/a/b").chars := by decide
  have htarget : mountedClient.target (.lit "mnt") (.lit "mnt/a/b") = .lit "/srv/a/b" := by decide
  have hplain : Plain mountedClient (.lit "mnt") (.lit "mnt/a/b") := by
    refine ⟨by decide, .inl ?_, fun rest hrest ↦ ?_, ?_⟩
    · rw [hbehind]
      decide
    · rw [hbehind, Option.some_inj] at hrest
      rw [← hrest]
      decide
    · rw [htarget]
      decide +kernel
  have hmount : mountedClient.mountedDir = some (.lit "mnt") := rfl
  rw [← htarget]
  exact (names_agree hmount (.lit "mnt/a/b") 0).2.mpr hplain

/-- Going up: the calls send different paths, and `fsOpen` opens another file. -/
theorem names_disagree :
    (¬ ∃ path, AllSend mountedClient (.lit "mnt/x/../y") 0 path) ∧
      ∃ path, mountedClient.translate (.lit "mnt/x/../y") = .ok path ∧
        resolve path ≠ resolve (mountedClient.target (.lit "mnt") (.lit "mnt/x/../y")) := by
  have hdir : mountedClient.translateDir (.lit "mnt/x/../y") = .ok (.lit "/srv/x/../y") := by
    decide
  have hopen : mountedClient.translate (.lit "mnt/x/../y") = .ok (.lit "/srv/x/y") := by decide
  refine ⟨?_, .lit "/srv/x/y", hopen, by decide⟩
  rintro ⟨path, h⟩
  obtain ⟨h₁, h₂⟩ := allSend_iff.mp h
  rw [hdir, Except.ok.injEq] at h₁
  rw [hopen, ← h₁, Except.ok.injEq] at h₂
  exact absurd h₂ (by decide)

end RemoteFs
