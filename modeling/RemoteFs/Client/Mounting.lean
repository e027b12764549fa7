import RemoteFs.Client.Directories
import RemoteFs.Client.Retry
import RemoteFs.Server.Confinement

/-!
# Mounting

The answer to `fsMount` is an `FSMOUNT`: the client's number, and the served directory in a field of
256 bytes.  The server copies the directory's name there by its own length; the client copies the
field, all of it.

* `mount_overflows`: a server started for a directory with a name of 256 characters writes past the
  field at the first `fsMount`.
* `mount_handshake_iff`: at any time, a client that mounts ends up with the name of the directory
  and with a number that no other client has, if and only if the name has fewer than 256 characters.
  The numbers are different in any case.
-/

set_option autoImplicit false

namespace RemoteFs

variable {κ : Type}

/-! ## The numbers of the clients -/

/-- The client number that an event hands out. -/
def Event.mountId? (e : Event) : Option Int32 :=
  if e.req.proc = .fsMount then e.reply.int?.toOption else none

/-- The client numbers handed out in a history, the newest first. -/
def mountIds (es : List Event) : List Int32 := es.filterMap Event.mountId?

/-- How many requests to mount there were. -/
def mounts (es : List Event) : ℕ := es.countP fun e ↦ e.req.proc = .fsMount

theorem length_mountIds_le (es : List Event) : (mountIds es).length ≤ mounts es := by
  rw [mountIds, List.length_filterMap_eq_countP]
  refine List.countP_mono_left fun e _ he ↦ ?_
  simp only [Event.mountId?] at he
  split at he
  · rename_i hproc
    exact decide_eq_true hproc
  · cases he

/-- The first `n` numbers, the newest first. -/
def numbers (n : ℕ) : List Int32 := ((List.range' 1 n).map Int32.ofNat).reverse

theorem numbers_succ (n : ℕ) : numbers (n + 1) = Int32.ofNat (n + 1) :: numbers n := by
  simp [numbers, List.range'_1_concat, Nat.add_comm]

/-- **They are different.** -/
theorem numbers_nodup {n : ℕ} (hn : n < 2 ^ 31) : (numbers n).Nodup := by
  refine List.nodup_reverse.mpr (List.Nodup.map_on (fun i hi j hj h ↦ ?_) List.nodup_range')
  rw [List.mem_range'_1] at hi hj
  have hint := congrArg Int32.toInt h
  rw [toInt_ofNat_of_lt (by omega), toInt_ofNat_of_lt (by omega)] at hint
  exact Int.ofNat.inj hint

/-! ## The answer -/

/-- The `FSMOUNT` with which client `n` is told the directory. -/
def mountReply (n : Int32) (dir : CString) : ReturnType :=
  ⟨some (intBytes n ++ (dir.mem ++ List.replicate (256 - dir.mem.length) 0)), 260, 0⟩

theorem int?_mountReply (n : Int32) (dir : CString) : (mountReply n dir).int? = .ok n :=
  intAt_intBytes_append n (dir.mem ++ List.replicate (256 - dir.mem.length) 0)

section
variable {K : Kernel κ} {w w' : World κ} {ret : ReturnType}

theorem mountClient_of_lt (h : w.srv.mountedDir.strlen < 256) :
    mountClient w = .ok (mountReply (w.srv.clientId + 1) w.srv.mountedDir,
      { w with srv := { w.srv with clientId := w.srv.clientId + 1 } }) := by
  rw [mountClient, if_neg (by omega)]
  rfl

theorem mountClient_of_le (h : 256 ≤ w.srv.mountedDir.strlen) :
    mountClient w = .error .overflow := by
  rw [mountClient, if_pos (by omega)]

/-- What is answered to `fsMount`, if it is answered. -/
theorem mountClient_eq_ok (h : mountClient w = .ok (ret, w')) :
    ret.int? = .ok (w.srv.clientId + 1) ∧ w'.srv.clientId = w.srv.clientId + 1 := by
  rcases Nat.lt_or_ge w.srv.mountedDir.strlen 256 with hlt | hle
  · rw [mountClient_of_lt hlt] at h
    cases h
    exact ⟨int?_mountReply .., rfl⟩
  · rw [mountClient_of_le hle] at h
    cases h

theorem clientId_openDirPath (K : Kernel κ) (c : Int32) (p : CString) (w : World κ) :
    (openDirPath K c p w).2.srv.clientId = w.srv.clientId := by
  simp only [openDirPath]
  split
  · rfl
  · split <;> exact World.after_clientId ..

/-- Only mounting counts clients. -/
theorem clientId_of_perform {op : Op} {g : Int32} (hop : op ≠ .mount)
    (h : perform K g op w = .ok (ret, w')) : w'.srv.clientId = w.srv.clientId := by
  by_cases hb : op.blocked w.srv.resourceList g = true
  · rw [perform_of_blocked K hb] at h
    cases h
    rfl
  · cases performed_of_perform (by simpa using hb) h with
    | ignored | unmount => rfl
    | mount => exact absurd rfl hop
    | readDir h =>
      obtain ⟨d, -, rfl⟩ := readDirNum_world h
      exact World.after_clientId ..
    | read h =>
      rw [readFd_world h]
      exact World.after_clientId ..
    | write h =>
      rw [writeFd_world h]
      exact World.after_clientId ..
    | @openDir c p =>
      rw [← clientId_openDirPath K c p w]
      exact congrArg (fun x ↦ x.2.srv.clientId) (Except.ok.inj h).symm
    | open_ | noDir | close | closeDir | remove => exact World.after_clientId ..

/-- One step: the next number is handed out, or nothing is counted. -/
theorem mountId?_of_step {e : Event} (h : serverStep K w e w') :
    (e.mountId? = some (w.srv.clientId + 1) ∧ w'.srv.clientId = w.srv.clientId + 1) ∨
      (e.mountId? = none ∧ w'.srv.clientId = w.srv.clientId) := by
  obtain ⟨op, hop, hperf⟩ := op_of_serve h.1
  by_cases hmount : op = .mount
  · left
    subst hmount
    have hproc : e.req.proc = .fsMount := by
      obtain hno | hasks := Request.op_eq_ok hop
      · cases hno
      · generalize e.req.proc = proc, e.req.clientId? = id? at hasks ⊢
        cases hasks
        rfl
    obtain ⟨hret, hid⟩ := mountClient_eq_ok hperf
    rw [Event.mountId?, if_pos hproc, hret]
    exact ⟨rfl, hid⟩
  · right
    refine ⟨?_, clientId_of_perform hmount hperf⟩
    rw [Event.mountId?]
    split
    · rename_i hproc
      obtain rfl | hasks := Request.op_eq_ok hop
      · have hnull : ReturnType.null = e.reply := congrArg Prod.fst (Except.ok.inj hperf)
        rw [← hnull]
        rfl
      · rw [hproc] at hasks
        cases hasks
        exact absurd rfl hmount
    · rfl

end

/-- **The numbers handed out in a run.** -/
theorem mountIds_of_run {K : Kernel κ} {guard : List Event → World κ → Event → Prop} {dir : CString}
    {k : κ} {es : List Event} {w : World κ} (run : ServerRun K guard dir k es w) :
    w.srv.clientId = Int32.ofNat (mountIds es).length ∧
      mountIds es = numbers (mountIds es).length := by
  refine Run.invariant (I := fun es w ↦ w.srv.clientId = Int32.ofNat (mountIds es).length ∧
    mountIds es = numbers (mountIds es).length) ⟨rfl, rfl⟩ ?_ run
  rintro es w e w' - ⟨hid, hids⟩ - hstep
  rcases mountId?_of_step hstep with ⟨he, hid'⟩ | ⟨he, hid'⟩
  · have hcons : mountIds (e :: es) = (w.srv.clientId + 1) :: mountIds es := List.filterMap_cons_some he
    have hnext : w.srv.clientId + 1 = Int32.ofNat ((mountIds es).length + 1) := by
      rw [hid, Int32.ofNat_add]
      rfl
    rw [hcons, List.length_cons, numbers_succ, ← hids, hid', hnext]
    exact ⟨rfl, rfl⟩
  · have hsame : mountIds (e :: es) = mountIds es := List.filterMap_cons_none he
    rw [hsame, hid']
    exact ⟨hid, hids⟩

/-! ## The handshake -/

/-- What `fsMount` should leave, when it was served in `w₁`, at the end of the run `es`. -/
structure MountedOn (K : Kernel κ) (dir name : CString) (es : List Event) (w₁ : World κ)
    (out : Outcome κ) : Prop where
  alias_ : out.client.alias_ = dir
  mountedDir : out.client.mountedDir = some name
  /-- The number is the one handed out for it. -/
  handed : ∃ e, serverStep K w₁ e out.world ∧ e.mountId? = some out.client.id
  /-- Nobody else has it. -/
  fresh : out.client.id ∉ mountIds es

/-- What the client makes of the structure. -/
theorem fsMount_of_remote {K : Kernel κ} {cl : Client} {name dir : CString} {a : Attempt}
    {w w' : World κ} {n : Int32} (hlen : dir.strlen < 256)
    (h : remote K .fsMount [.str name] a w = .ok (mountReply n dir, w')) :
    cl.fsMount K name a w = .ok ⟨0, mountReply n dir,
      { cl with id := n, alias_ := dir, mountedDir := some name }, w'⟩ := by
  have hmem := dir.length_mem
  have hdrop : (((mountReply n dir).returnVal.getD []).drop 4).take 256
      = dir.mem ++ List.replicate (256 - dir.mem.length) 0 := by
    rw [mountReply, Option.getD_some, List.drop_left' (length_intBytes n)]
    refine List.take_of_length_le ?_
    rw [List.length_append, List.length_replicate]
    omega
  have hroom : ¬ ((mountReply n dir).returnVal.getD []).length < 4 + 256 := by
    rw [mountReply, Option.getD_some, List.length_append, List.length_append, List.length_replicate,
      length_intBytes]
    omega
  have hid : intAt ((mountReply n dir).returnVal.getD []) = .ok n := intAt_intBytes_append n _
  simp only [Client.fsMount, h, bind, Except.bind, hid, if_neg hroom, hdrop,
    CString.at?_mem_append]
  rfl

theorem fsMount_of_error {K : Kernel κ} {cl : Client} {name : CString} {a : Attempt}
    {w : World κ} {f : Fault} (h : remote K .fsMount [.str name] a w = .error f) :
    cl.fsMount K name a w = .error f := by
  simp only [Client.fsMount, h, bind, Except.bind]

/-- **When mounting works.**  At the end of every run of the server, with any requests of any
clients in it and fewer than `2 ^ 31` to mount: all the client numbers handed out are different; and
a client that mounts now, after whatever the others ask for in between, gets the name of the served
directory as its alias, and a number of its own, if and only if the name has fewer than 256
characters.  With any other name, the server writes past the end of its structure. -/
theorem mount_handshake_iff (K : Kernel κ) {dir : CString} {k : κ} {es : List Event} {w₁ : World κ}
    (run : ServerRun K Run.free dir k es w₁) (hfew : mounts es + 1 < 2 ^ 31) :
    (mountIds es).Nodup ∧
    ∀ (cl : Client) (name : CString) (a : Attempt) (w : World κ),
      a.Meets K .fsMount [.str name] w .mount w₁ →
      ((∃ out, cl.fsMount K name a w = .ok out ∧ MountedOn K dir name es w₁ out) ↔
        dir.strlen < 256) ∧
      (256 ≤ dir.strlen → cl.fsMount K name a w = .error .overflow) := by
  obtain ⟨hid, hids⟩ := mountIds_of_run run
  have hdir : w₁.srv.mountedDir = dir := (paths_of_run run).1
  have hcount := length_mountIds_le es
  have hnext : w₁.srv.clientId + 1 = Int32.ofNat ((mountIds es).length + 1) := by
    rw [hid, Int32.ofNat_add]
    rfl
  -- with the next number, they are still different
  have hcons : (w₁.srv.clientId + 1) :: mountIds es = numbers ((mountIds es).length + 1) := by
    rw [hnext, numbers_succ, ← hids]
  have hnodup : ((w₁.srv.clientId + 1) :: mountIds es).Nodup := by
    rw [hcons]
    exact numbers_nodup (by omega)
  obtain ⟨hfresh, hold⟩ := List.nodup_cons.mp hnodup
  refine ⟨hold, fun cl name a w hmeets ↦ ?_⟩
  have hremote : remote K .fsMount [.str name] a w = mountClient w₁ := remote_of_meets rfl hmeets
  have hover : 256 ≤ dir.strlen → cl.fsMount K name a w = .error .overflow := by
    intro hle
    rw [← hdir] at hle
    exact fsMount_of_error (hremote.trans (mountClient_of_le hle))
  refine ⟨⟨?_, ?_⟩, hover⟩
  · rintro ⟨out, hout, -⟩
    by_contra hle
    rw [hover (Nat.le_of_not_lt hle)] at hout
    cases hout
  · intro hlt
    have hanswer := mountClient_of_lt (w := w₁) (hdir ▸ hlt)
    rw [hdir] at hanswer
    refine ⟨_, fsMount_of_remote hlt (hremote.trans hanswer), rfl, rfl, ?_, hfresh⟩
    obtain ⟨-, args, -, hop⟩ := hmeets
    refine ⟨⟨⟨.fsMount, args, a.garbage⟩, [], mountReply (w₁.srv.clientId + 1) dir⟩, ?_, ?_⟩
    · exact ⟨(serve_of_op hop).trans hanswer, rfl⟩
    · rw [Event.mountId?, if_pos rfl, int?_mountReply]
      rfl

/-! ## Runs -/

/-- What a client sends to mount arrives. -/
theorem meets_mount {K : Kernel κ} (w : World κ) :
    Attempt.quiet.Meets K .fsMount [.str (.lit "mnt")] w .mount w :=
  ⟨rfl, [.str (.lit "mnt") (by decide)], .cons (Param.passes_str _ _) .nil, rfl⟩

/-- A client of a server for `/srv` that comes after two others. -/
theorem mount_handshake_of_third :
    ∃ es w, ServerRun (FileSystem.kernel .lowest) Run.free (.lit "/srv") {} es w ∧
      mountIds es = [2, 1] ∧ (mountIds es).Nodup ∧
      ∃ out, mountedClient.fsMount (FileSystem.kernel .lowest) (.lit "mnt") .quiet w = .ok out ∧
        MountedOn (FileSystem.kernel .lowest) (.lit "/srv") (.lit "mnt") es w out := by
  obtain ⟨es, w, hrun, hes⟩ := exists_run (FileSystem.kernel .lowest) Run.free (.lit "/srv") {}
    [⟨.fsMount, [.str (.lit "mnt") (by decide)], 0⟩, ⟨.fsMount, [.str (.lit "dir") (by decide)], 0⟩]
    (fun es _ ↦ decide (mountIds es = [2, 1] ∧ mounts es = 2)) (by decide)
  obtain ⟨hids, htwo⟩ := of_decide_eq_true hes
  obtain ⟨hnodup, hmount⟩ := mount_handshake_iff _ hrun (by rw [htwo]; decide)
  exact ⟨es, w, hrun, hids, hnodup,
    (hmount mountedClient (.lit "mnt") .quiet w (meets_mount w)).1.mpr (by decide)⟩

/-- The first client of a server for a directory with a long name. -/
theorem fsMount_of_long {K : Kernel κ} {cl : Client} {dir : CString} {k : κ}
    (hlong : 256 ≤ dir.strlen) :
    cl.fsMount K (.lit "mnt") .quiet (.start dir k) = .error .overflow := by
  have hremote : remote K .fsMount [.str (.lit "mnt")] .quiet (.start dir k)
      = mountClient (.start dir k) := remote_of_meets rfl (meets_mount _)
  exact fsMount_of_error (hremote.trans (mountClient_of_le hlong))

/-- The root directory, with so many slashes. -/
def slashes (n : ℕ) : CString :=
  ⟨List.replicate n 47, fun h ↦ absurd (List.eq_of_mem_replicate h) (by decide)⟩

theorem strlen_slashes (n : ℕ) : (slashes n).strlen = n := List.length_replicate

/-- With 256 of them, the server writes out of bounds. -/
theorem mount_overflows :
    mountedClient.fsMount (FileSystem.kernel .lowest) (.lit "mnt") .quiet (.start (slashes 256) {})
      = .error .overflow :=
  fsMount_of_long (Nat.le_of_eq (strlen_slashes 256).symm)

end RemoteFs
