import RemoteFs.Client.Names

/-!
# Going up

`fsOpen` and `fsRemove` replace every `/../` in a path by a slash, so that a name cannot lead out of
the directory that is served.  One pass is made, and it goes on behind the slash it has put in: of
two steps up in a row, it takes the first, and the second has lost the slash in front of it.

* `parents_sent`: for a name with two steps up, the path that is sent has one.
* `no_parents_sent_iff`: the path that is sent has no step up in it, and would not be changed by
  another pass, if and only if the name, its folder replaced, has no two in a row.
-/

set_option autoImplicit false

namespace RemoteFs

/-- `/../../` -/
def upSteps : Bytes := upStep ++ [46, 46, 47]

theorem upStep_prefix_upSteps : upStep <+: upSteps := List.prefix_append _ _

/-- A step up that begins before a slash and reaches it ends there. -/
theorem upStep_prefix_of_slash {before x y : Bytes} (hne : before ≠ [])
    (h : upStep <+: before ++ 47 :: x) : upStep <+: before ++ 47 :: y := by
  match before, hne with
  | [_], _ => simp [upStep] at h
  | [_, _], _ => simp [upStep] at h
  | _ :: _ :: _ :: [], _ => simpa [upStep] using h
  | _ :: _ :: _ :: _ :: _, _ => simpa [upStep] using h

/-- No step up is found before the slash that was put in the place of the first one. -/
theorem upStep_infix_iff_of_first {before after new : Bytes}
    (first : ∀ b a, before ++ upStep ++ after = b ++ upStep ++ a → before.length ≤ b.length) :
    upStep <:+: before ++ [47] ++ new ↔ upStep <:+: 47 :: new := by
  constructor
  · rintro ⟨b, a, h⟩
    simp only [List.append_assoc, List.singleton_append] at h
    rcases List.append_eq_append_iff.mp h with ⟨x, hbefore, hx⟩ | ⟨x, hb, hx⟩
    · -- it began before the slash: then it was there before
      by_cases hne : x = []
      · rw [hne, List.nil_append] at hx
        exact ⟨[], a, hx⟩
      · have hslash : upStep <+: x ++ 47 :: new := ⟨a, hx⟩
        obtain ⟨a', ha'⟩ := upStep_prefix_of_slash hne hslash (y := [46, 46, 47] ++ after)
        have hearly : before ++ upStep ++ after = b ++ upStep ++ a' := by
          rw [hbefore, List.append_assoc b upStep, ha']
          simp [upStep]
        have hle := first b a' hearly
        have hpos := List.length_pos_iff.mpr hne
        rw [hbefore, List.length_append] at hle
        omega
    · exact ⟨x, a, by rw [List.append_assoc]; exact hx.symm⟩
  · intro h
    rw [List.append_assoc]
    exact h.trans (List.suffix_append _ _).isInfix

/-- The beginning of a step up is not put in by a replacement. -/
theorem up_prefix_iff {after new : Bytes} (h : Replaced upStep [47] after new) :
    [46, 46, 47] <+: new ↔ [46, 46, 47] <+: after := by
  cases h with
  | none => rfl
  | @next before after new _ _ =>
    match before with
    | [] => simp [upStep]
    | [_] => simp [upStep]
    | [_, _] => simp [upStep]
    | _ :: _ :: _ :: _ => simp

/-- **What is left of the steps up**: one for every two in a row. -/
theorem upStep_infix_iff {l new : Bytes} (h : Replaced upStep [47] l new) :
    upStep <:+: new ↔ upSteps <:+: l := by
  induction h with
  | none hnot =>
    exact iff_of_false hnot fun h ↦ hnot (upStep_prefix_upSteps.isInfix.trans h)
  | @next before after new first rest ih =>
    have hnew : upStep <:+: 47 :: new ↔ [46, 46, 47] <+: new ∨ upStep <:+: new := by
      rw [List.infix_cons_iff]
      simp [upStep]
    have hl : upSteps <:+: upStep ++ after ↔ [46, 46, 47] <+: after ∨ upSteps <:+: after := by
      have hshort : [46, 46, 47, 46, 46, 47] <+: after → [46, 46, 47] <+: after :=
        (List.prefix_append [46, 46, 47] [46, 46, 47]).trans
      have hsteps : upSteps <:+: upStep ++ after ↔
          [46, 46, 47] <+: after ∨ [46, 46, 47, 46, 46, 47] <+: after ∨ upSteps <:+: after := by
        simp [upSteps, upStep, List.infix_cons_iff]
      rw [hsteps, ← or_assoc, or_iff_left_of_imp hshort]
    rw [upStep_infix_iff_of_first first, infix_append_iff_of_first first upStep_prefix_upSteps,
      hnew, hl, up_prefix_iff rest, ih]

/-! ## What is sent -/

/-- The name, the folder replaced in it, has two steps up in a row. -/
def StepsUp (cl : Client) (folder name : CString) : Prop :=
  ∃ x, Replaced folder.chars cl.alias_.chars name.chars x ∧ upSteps <:+: x

/-- **When no step up is sent.**  For a client with a mount folder, the path that `fsOpen` and
`fsRemove` send for a name has no `/../` in it if and only if the name, its folder replaced, does
not have two of them in a row; and only then would another replacement leave the path as it is. -/
theorem no_parents_sent_iff {cl : Client} {folder name path : CString}
    (hmount : cl.mountedDir = some folder) (hpath : cl.translate name = .ok path) (mode : Int32) :
    (ApiCall.retry (.fsOpen name mode)).params cl = .ok [.int cl.id, .int mode, .str path] ∧
    (ApiCall.retry (.fsRemove name)).params cl = .ok [.int cl.id, .str path] ∧
    (¬ upStep <:+: path.chars ↔ ¬ StepsUp cl folder name) ∧
    (strReplace path (some (.lit "/../")) (some (.lit "/")) = .ok path ↔
      ¬ StepsUp cl folder name) := by
  obtain ⟨mounted, hmounted, hup⟩ := bind_eq_ok.mp hpath
  rw [hmount] at hmounted
  have hfolder := replaced_of_strReplace hmounted
  have hreplaced : Replaced upStep [47] mounted.chars path.chars := replaced_of_strReplace hup
  have hsteps : upStep <:+: path.chars ↔ StepsUp cl folder name := by
    rw [upStep_infix_iff hreplaced]
    constructor
    · intro h
      exact ⟨_, hfolder, h⟩
    · rintro ⟨x, hx, hsteps⟩
      rwa [hfolder.unique hx]
  obtain ⟨again, hagain⟩ : ∃ again,
      strReplace path (some (.lit "/../")) (some (.lit "/")) = .ok again :=
    strReplace_isOk_iff.mpr (by decide)
  have hsame : again = path ↔ ¬ upStep <:+: path.chars := by
    have hreplaced' : Replaced upStep [47] path.chars again.chars := replaced_of_strReplace hagain
    rw [← or_iff_left (a := ¬ upStep <:+: path.chars) (by decide : ¬ [47] = upStep),
      ← hreplaced'.eq_self_iff]
    exact ⟨congrArg CString.chars, CString.ext_chars⟩
  refine ⟨fsOpen_params_iff.mpr hpath, fsRemove_params_iff.mpr hpath, not_congr hsteps, ?_⟩
  rw [hagain, Except.ok.injEq, hsame, hsteps]

/-- One step up is taken out. -/
theorem no_parents_sent_of_one : ¬ StepsUp mountedClient (.lit "mnt") (.lit "mnt/x/../y") := by
  have hpath : mountedClient.translate (.lit "mnt/x/../y") = .ok (.lit "/srv/x/y") := by decide
  exact (no_parents_sent_iff rfl hpath 0).2.2.1.mp (by decide +kernel)

/-- Of two in a row, the second one is sent, and leads out of the directory. -/
theorem parents_sent :
    ¬ upStep <:+: mountedClient.alias_.chars ∧
    ∃ path, (ApiCall.retry (.fsRemove (.lit "mnt/../../x"))).params mountedClient
        = .ok [.int 1, .str path] ∧
      upStep <:+: path.chars ∧ ¬ Within mountedClient.alias_ path := by
  have hpath : mountedClient.translate (.lit "mnt/../../x") = .ok (.lit "/srv/../x") := by decide
  exact ⟨by decide, _, fsRemove_params_iff.mpr hpath, by decide +kernel, by decide⟩

end RemoteFs
