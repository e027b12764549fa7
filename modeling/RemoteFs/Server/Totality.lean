import RemoteFs.Server.Confinement
import RemoteFs.Server.Main

/-!
# Which requests are served

A request that has been decoded has the right number of arguments, each as long as its size says,
and that is all its handler can rely on.  What else the handlers take for granted is listed here:
`Request.Readable` is what they assume of the arguments, `Op.Safe` what they assume of the state and
of the kernel once the arguments have been read.  `handlers_total` says that this is exactly what
they need: a request is answered, with a reply that has been written in full, if and only if both
hold, and a request for which one of them fails is the end of the server.

`printBuf` is the dump `fsWrite` makes of its data before it writes them, whatever their length; the
handlers of the model are without it.  `performDumping` puts it back in its place.
-/

set_option autoImplicit false

namespace RemoteFs

variable {κ : Type}

/-- What the handlers assume of arguments whose number is right. -/
def Request.Readable (req : Request) : Prop :=
  match req.proc, req.args with
  | .fsOpenDir, [a₀, a₁] | .fsRemove, [a₀, a₁] => a₀.argSize = sizeofInt → (0 : UInt8) ∈ a₁.argVal
  | .fsReadDir, [a₀, a₁] | .fsCloseDir, [a₀, a₁] => a₀.argSize = sizeofInt → 4 ≤ a₁.argVal.length
  | .fsOpen, [a₀, a₁, a₂] =>
    a₀.argSize = sizeofInt → a₁.argSize = sizeofInt → (0 : UInt8) ∈ a₂.argVal
  | _, _ => True

/-- What the handlers assume of the state and of the kernel. -/
def Op.Safe (K : Kernel κ) (garbage : Int32) (w : World κ) : Op → Prop
  /- The directory fits in the path field of `FSMOUNT`. -/
  | .mount => w.srv.mountedDir.strlen < 256
  | .readDir num => (findNode w.srv.openDirQueue num).isSome = true
  | .closeDir id num => (Op.closeDir id num).blocked w.srv.resourceList garbage = true ∨
      (findNode w.srv.openDirQueue num).isSome = true
  /- The call succeeds, has a buffer for what it returns, and the reply has room for it. -/
  | .read fd count => ∃ bs, (K.read w.kern fd (sizeT count)).1 = .ok bs ∧
      (0 ≤ count ∨ bs.1 = []) ∧ 4 + bs.1.length < 2 ^ 31
  | .write id fd count buf => (Op.write id fd count buf).blocked w.srv.resourceList garbage = true ∨
      sizeT count ≤ buf.length
  | _ => True

/-- The `printBuf` of `helper.c`, as far as memory is concerned. -/
def printBuf (buf : Bytes) (size : ℕ) : Except Fault Unit :=
  if buf.length < size then .error .overread else .ok ()

/-- The dump `fsWrite` makes once it has passed the lock check. -/
def Op.dump (w : World κ) : Op → Except Fault Unit
  | .write id fd _ buf =>
    if refuses (findResource w.srv.resourceList id fd none) id then .ok () else printBuf buf 256
  | _ => .ok ()

/-- `perform`, with the dump. -/
def performDumping (K : Kernel κ) (garbage : Int32) (op : Op) (w : World κ) :
    Except Fault (ReturnType × World κ) := do
  op.dump w
  perform K garbage op w

/-- The data `fsWrite` dumps is there. -/
def Op.Dumpable (garbage : Int32) (w : World κ) : Op → Prop
  | .write id fd count buf => (Op.write id fd count buf).blocked w.srv.resourceList garbage = true ∨
      256 ≤ buf.length
  | _ => True

/-! ## Reading the arguments -/

theorem cstr_isOk_iff {a : ArgType} : (∃ s, a.cstr = .ok s) ↔ (0 : UInt8) ∈ a.argVal := by
  rw [ArgType.cstr, ← CString.at?_isSome_iff]
  cases CString.at? a.argVal <;> simp

theorem intAt_isOk_iff {bs : Bytes} : (∃ n, intAt bs = .ok n) ↔ 4 ≤ bs.length := by
  refine ⟨?_, intAt_isOk⟩
  rintro ⟨n, hn⟩
  match bs, hn with
  | _ :: _ :: _ :: _ :: _, _ => simp

/-- What `withId` does with arguments there are. -/
theorem withId_isOk_iff {req : Request} {n : Int32} {a₀ : ArgType} {rest : List ArgType}
    {f : Int32 → Except Fault Op} (hn : req.nparams = n) (hargs : req.args = a₀ :: rest) :
    (∃ op, req.withId n f = .ok op) ↔
      (a₀.argSize = sizeofInt → ∃ id op, intAt a₀.argVal = .ok id ∧ f id = .ok op) := by
  by_cases h₀ : a₀.argSize = sizeofInt
  · obtain ⟨id, hid⟩ := ArgType.intAt_isOk h₀
    simp [Request.withId, hn, hargs, readId, argAt, bind, Except.bind, pure, Except.pure, h₀, hid]
  · simp [Request.withId, hn, hargs, readId, argAt, bind, Except.bind, pure, Except.pure, h₀]

/-- The handlers that do not look at what is not there. -/
theorem withId_isOk {req : Request} {n : Int32} {a₀ : ArgType} {rest : List ArgType}
    {f : Int32 → Except Fault Op} (hn : req.nparams = n) (hargs : req.args = a₀ :: rest)
    (hf : ∀ id, ∃ op, f id = .ok op) : ∃ op, req.withId n f = .ok op := by
  refine (withId_isOk_iff hn hargs).mpr fun h₀ ↦ ?_
  obtain ⟨id, hid⟩ := ArgType.intAt_isOk h₀
  obtain ⟨op, hop⟩ := hf id
  exact ⟨id, op, hid, hop⟩

/-- The handlers that take a client id and one argument more. -/
theorem withId_second_isOk_iff {β : Type} {req : Request} {n : Int32} {a₀ a₁ : ArgType}
    {f : ArgType → Except Fault β} {g : Int32 → β → Op} (hn : req.nparams = n)
    (hargs : req.args = [a₀, a₁]) :
    (∃ op, req.withId n (fun id ↦ do return g id (← f (← argAt req.args 1))) = .ok op) ↔
      (a₀.argSize = sizeofInt → ∃ x, f a₁ = .ok x) := by
  have hsecond : argAt req.args 1 = .ok a₁ := by rw [hargs]; rfl
  simp only [withId_isOk_iff hn hargs, hsecond, ok_bind]
  constructor
  · intro h h₀
    obtain ⟨id, op, -, hop⟩ := h h₀
    obtain ⟨x, hx, -⟩ := bind_eq_ok.mp hop
    exact ⟨x, hx⟩
  · intro h h₀
    obtain ⟨id, hid⟩ := ArgType.intAt_isOk h₀
    obtain ⟨x, hx⟩ := h h₀
    exact ⟨id, g id x, hid, by rw [hx]; rfl⟩

/-- One argument that has to be an `int`. -/
theorem int_isOk (a : ArgType) (g : Int32 → Op) :
    ∃ op, (if a.argSize ≠ sizeofInt then return .ignored
      else return g (← intAt a.argVal) : Except Fault Op) = .ok op := by
  by_cases h : a.argSize = sizeofInt
  · obtain ⟨n, hn⟩ := ArgType.intAt_isOk h
    exact ⟨g n, by rw [if_neg (not_not.mpr h), hn]; rfl⟩
  · exact ⟨.ignored, if_pos h⟩

/-- Two arguments that have to be `int`s. -/
theorem ints_isOk (a b : ArgType) (g : Int32 → Int32 → Op) :
    ∃ op, (if a.argSize ≠ sizeofInt ∨ b.argSize ≠ sizeofInt then return .ignored
      else return g (← intAt a.argVal) (← intAt b.argVal) : Except Fault Op) = .ok op := by
  by_cases h : a.argSize ≠ sizeofInt ∨ b.argSize ≠ sizeofInt
  · exact ⟨.ignored, if_pos h⟩
  · obtain ⟨ha, hb⟩ : a.argSize = sizeofInt ∧ b.argSize = sizeofInt := by
      simpa [not_or] using h
    obtain ⟨m, hm⟩ := ArgType.intAt_isOk ha
    obtain ⟨n, hn⟩ := ArgType.intAt_isOk hb
    exact ⟨g m n, by rw [if_neg h, hm, hn]; rfl⟩

/-- An `int`, and then a string. -/
theorem int_cstr_isOk_iff (a b : ArgType) (g : Int32 → CString → Op) :
    (∃ op, (if a.argSize ≠ sizeofInt then return .ignored
      else do
        let path ← b.cstr
        return g (← intAt a.argVal) path : Except Fault Op) = .ok op) ↔
      (a.argSize = sizeofInt → ∃ s, b.cstr = .ok s) := by
  by_cases h : a.argSize = sizeofInt
  · rw [if_neg (not_not.mpr h)]
    constructor
    · rintro ⟨op, hop⟩ -
      obtain ⟨path, hpath, -⟩ := bind_eq_ok.mp hop
      exact ⟨path, hpath⟩
    · intro hcstr
      obtain ⟨path, hpath⟩ := hcstr h
      obtain ⟨n, hn⟩ := ArgType.intAt_isOk h
      exact ⟨g n path, by rw [hpath, hn]; rfl⟩
  · exact iff_of_true ⟨.ignored, if_pos h⟩ fun h' ↦ absurd h' h

/-- **The arguments of a decoded request can be read exactly if it is readable.** -/
theorem op_isOk_iff {req : Request} (hn : (req.args.length : ℤ) = req.proc.nparams.toInt) :
    (∃ op, req.op = .ok op) ↔ req.Readable := by
  have hcount := nparams_of_length hn
  obtain ⟨proc, args, garbage⟩ := req
  have hlen : args.length = proc.nparams.toInt.toNat := by
    show args.length = _
    have hn' : (args.length : ℤ) = proc.nparams.toInt := hn
    omega
  cases proc with
  | fsMount | fsUnmount =>
    refine iff_of_true ?_ trivial
    simp only [Request.op]
    split <;> exact ⟨_, rfl⟩
  | fsOpenDir | fsRemove =>
    obtain ⟨a₀, a₁, rfl⟩ := List.length_eq_two.mp hlen
    exact (withId_second_isOk_iff hcount rfl).trans
      (imp_congr_right fun _ ↦ cstr_isOk_iff)
  | fsReadDir | fsCloseDir =>
    obtain ⟨a₀, a₁, rfl⟩ := List.length_eq_two.mp hlen
    exact (withId_second_isOk_iff (f := fun a ↦ intAt a.argVal) hcount rfl).trans
      (imp_congr_right fun _ ↦ intAt_isOk_iff)
  | fsClose =>
    obtain ⟨a₀, a₁, rfl⟩ := List.length_eq_two.mp hlen
    exact iff_of_true (withId_isOk hcount rfl fun id ↦ int_isOk a₁ (.close id)) trivial
  | fsOpen =>
    obtain ⟨a₀, a₁, a₂, rfl⟩ := List.length_eq_three.mp hlen
    refine (withId_isOk_iff hcount rfl).trans (imp_congr_right fun h₀ ↦ ?_)
    obtain ⟨id, hid⟩ := ArgType.intAt_isOk h₀
    rw [← cstr_isOk_iff, ← int_cstr_isOk_iff a₁ a₂ (.open_ id)]
    constructor
    · rintro ⟨id', op, hid', hop⟩
      obtain rfl : id = id' := Except.ok.inj (hid.symm.trans hid')
      exact ⟨op, hop⟩
    · rintro ⟨op, hop⟩
      exact ⟨id, op, hid, hop⟩
  | fsRead =>
    obtain ⟨a₀, a₁, a₂, a₃, rfl⟩ := List.length_eq_four.mp hlen
    exact iff_of_true (withId_isOk hcount rfl fun _ ↦ ints_isOk a₁ a₃ .read) trivial
  | fsWrite =>
    obtain ⟨a₀, a₁, a₂, a₃, rfl⟩ := List.length_eq_four.mp hlen
    refine iff_of_true (withId_isOk hcount rfl fun id ↦ ?_) trivial
    exact ints_isOk a₁ a₂ fun fd count ↦ .write id fd count a₃.argVal

/-! ## Acting on them -/

theorem readDirNum_isOk_iff (K : Kernel κ) (num : Int32) (w : World κ) :
    (∃ r w', readDirNum K num w = .ok (r, w')) ↔
      (findNode w.srv.openDirQueue num).isSome = true := by
  constructor
  · rintro ⟨r, w', h⟩
    obtain ⟨d, hd, -⟩ := readDirNum_world h
    rw [hd]
    rfl
  · intro h
    obtain ⟨d, hd⟩ := Option.isSome_iff_exists.mp h
    simp only [readDirNum, hd]
    split
    · exact ⟨_, _, rfl⟩
    · split <;> exact ⟨_, _, rfl⟩

theorem readFd_isOk_iff (K : Kernel κ) (fd count : Int32) (w : World κ) :
    (∃ r w', readFd K fd count w = .ok (r, w')) ↔
      ∃ bs, (K.read w.kern fd (sizeT count)).1 = .ok bs ∧ (0 ≤ count ∨ bs.1 = []) ∧
        4 + bs.1.length < 2 ^ 31 := by
  cases hgot : (K.read w.kern fd (sizeT count)).1 with
  | error e =>
    -- the reply has room for three bytes, and its first four are written
    have hroom : (sizeofInt + -1).toInt < 4 + ([] : Bytes).length := by decide
    simp only [readFd, hgot, intResult, if_pos hroom]
    simp
  | ok bs =>
    have hsize : (sizeofInt + Int32.ofNat bs.1.length).toInt < 4 + bs.1.length ↔
        ¬ 4 + bs.1.length < 2 ^ 31 := by
      have hlt := Int32.toInt_lt (sizeofInt + Int32.ofNat bs.1.length)
      constructor
      · intro h hfits
        have hadd : sizeofInt + Int32.ofNat bs.1.length = Int32.ofNat (4 + bs.1.length) :=
          (Int32.ofNat_add _ _).symm
        rw [hadd, toInt_ofNat_of_lt hfits] at h
        omega
      · intro hfits
        by_contra h
        have heq := toInt_sizeofInt_add _ h
        omega
    have hneg : count < 0 ∧ bs.1 ≠ [] ↔ ¬ (0 ≤ count ∨ bs.1 = []) := by
      rw [not_or, Int32.not_le]
    simp only [readFd, hgot, intResult, hsize, hneg]
    by_cases hbuf : 0 ≤ count ∨ bs.1 = []
    · rw [if_neg (not_not.mpr hbuf)]
      by_cases hfits : 4 + bs.1.length < 2 ^ 31
      · rw [if_neg (not_not.mpr hfits)]
        exact iff_of_true ⟨_, _, rfl⟩ ⟨bs, rfl, hbuf, hfits⟩
      · rw [if_pos hfits]
        refine iff_of_false (by simp) ?_
        rintro ⟨_, heq, -, h⟩
        cases heq
        exact hfits h
    · rw [if_pos hbuf]
      refine iff_of_false (by simp) ?_
      rintro ⟨_, heq, h, -⟩
      cases heq
      exact hbuf h

theorem writeFd_isOk_iff (K : Kernel κ) (fd count : Int32) (buf : Bytes) (w : World κ) :
    (∃ r w', writeFd K fd count buf w = .ok (r, w')) ↔ sizeT count ≤ buf.length := by
  rw [writeFd]
  split
  · simp only [reduceCtorEq, exists_false, false_iff]
    omega
  · refine iff_of_true ⟨_, _, rfl⟩ ?_
    omega

/-- **An operation is carried out exactly if it is safe.** -/
theorem perform_isOk_iff (K : Kernel κ) (g : Int32) (op : Op) (w : World κ) :
    (∃ r w', perform K g op w = .ok (r, w')) ↔ op.Safe K g w := by
  cases op with
  | ignored | unmount | openDir | remove | open_ | close =>
    exact iff_of_true ⟨_, _, rfl⟩ trivial
  | mount =>
    simp only [perform, mountClient, Op.Safe]
    split
    · simp only [reduceCtorEq, exists_false, false_iff]
      omega
    · refine iff_of_true ⟨_, _, rfl⟩ ?_
      omega
  | readDir num => exact readDirNum_isOk_iff K num w
  | read fd count => exact readFd_isOk_iff K fd count w
  | closeDir id num =>
    by_cases hb : (Op.closeDir id num).blocked w.srv.resourceList g = true
    · exact iff_of_true ⟨_, _, perform_of_blocked K hb⟩ (.inl hb)
    · have hadm : refuses (fdEntry w.srv.resourceList g) id = false := by
        rw [← findResource_eq_fdEntry _ id]
        simpa [Op.blocked] using hb
      constructor
      · rintro ⟨r, w', h⟩
        obtain ⟨d, hd⟩ := findNode_of_closeDirNum hadm h
        exact .inr (by rw [hd]; rfl)
      · rintro (hb' | hd)
        · exact absurd hb' hb
        · obtain ⟨d, hd⟩ := Option.isSome_iff_exists.mp hd
          exact ⟨_, _, closeDirNum_of_admitted K w hadm hd⟩
  | write id fd count buf =>
    by_cases hb : (Op.write id fd count buf).blocked w.srv.resourceList g = true
    · exact iff_of_true ⟨_, _, perform_of_blocked K hb⟩ (.inl hb)
    · have hperform : perform K g (.write id fd count buf) w = writeFd K fd count buf w :=
        if_neg hb
      rw [hperform, writeFd_isOk_iff]
      exact ⟨.inr, fun h ↦ h.resolve_left hb⟩

theorem dump_isOk_iff (op : Op) (g : Int32) (w : World κ) : op.dump w = .ok () ↔ op.Dumpable g w := by
  cases op with
  | write id fd count buf =>
    by_cases hb : (Op.write id fd count buf).blocked w.srv.resourceList g = true
    · exact iff_of_true (if_pos hb) (.inl hb)
    · have hdump : (Op.write id fd count buf).dump w = printBuf buf 256 := if_neg hb
      have hiff : (Op.write id fd count buf).Dumpable g w ↔ 256 ≤ buf.length :=
        ⟨fun h ↦ h.resolve_left hb, .inr⟩
      rw [hdump, hiff, printBuf]
      split
      · exact iff_of_false nofun (by omega)
      · exact iff_of_true rfl (by omega)
  | _ => exact iff_of_true rfl trivial

/-- With its dump, an operation needs the data the dump shows. -/
theorem performDumping_isOk_iff (K : Kernel κ) (g : Int32) (op : Op) (w : World κ) :
    (∃ r w', performDumping K g op w = .ok (r, w')) ↔ op.Safe K g w ∧ op.Dumpable g w := by
  rw [← perform_isOk_iff, ← dump_isOk_iff op g w]
  constructor
  · rintro ⟨r, w', h⟩
    obtain ⟨_, hdump, hperform⟩ := bind_eq_ok.mp h
    exact ⟨⟨r, w', hperform⟩, hdump⟩
  · rintro ⟨⟨r, w', hperform⟩, hdump⟩
    exact ⟨r, w', bind_eq_ok.mpr ⟨(), hdump, hperform⟩⟩

/-! ## The handlers -/

theorem exists_ok_and_iff {α : Type} {x : Except Fault α} {p : α → Prop} :
    (∃ a, x = .ok a ∧ p a) ↔ (∃ a, x = .ok a) ∧ ∀ a, x = .ok a → p a := by
  constructor
  · rintro ⟨a, rfl, ha⟩
    exact ⟨⟨a, rfl⟩, fun b hb ↦ Except.ok.inj hb ▸ ha⟩
  · rintro ⟨⟨a, rfl⟩, h⟩
    exact ⟨a, rfl, h a rfl⟩

/-- **Which requests are served.**  For every state of the server and every request that has been
decoded, with as many arguments as its handler is registered for: the handler comes back, with a
reply that holds all the bytes it announces, if and only if the arguments are readable and the
operation they ask for is safe.  With the dump of `fsWrite` counted in, that operation must be
dumpable too. -/
theorem handlers_total (K : Kernel κ) (w : World κ) {req : Request}
    (hn : (req.args.length : ℤ) = req.proc.nparams.toInt) :
    ((∃ r w', serve K req w = .ok (r, w') ∧ r.Exact) ↔
      req.Readable ∧ ∀ op, req.op = .ok op → op.Safe K req.garbage w) ∧
    ((∃ op r w', req.op = .ok op ∧ performDumping K req.garbage op w = .ok (r, w')) ↔
      req.Readable ∧ ∀ op, req.op = .ok op →
        op.Safe K req.garbage w ∧ op.Dumpable req.garbage w) := by
  rw [← op_isOk_iff hn, ← exists_ok_and_iff, ← exists_ok_and_iff]
  constructor
  · constructor
    · rintro ⟨r, w', hserve, -⟩
      obtain ⟨op, hop, hperform⟩ := op_of_serve hserve
      exact ⟨op, hop, (perform_isOk_iff K _ op w).mp ⟨r, w', hperform⟩⟩
    · rintro ⟨op, hop, hsafe⟩
      obtain ⟨r, w', hperform⟩ := (perform_isOk_iff K _ op w).mpr hsafe
      have hserve := (serve_of_op hop).trans hperform
      exact ⟨r, w', hserve, exact_of_serve hserve⟩
  · constructor
    · rintro ⟨op, r, w', hop, hperform⟩
      exact ⟨op, hop, (performDumping_isOk_iff K _ op w).mp ⟨r, w', hperform⟩⟩
    · rintro ⟨op, hop, hsafe⟩
      obtain ⟨r, w', hperform⟩ := (performDumping_isOk_iff K _ op w).mpr hsafe
      exact ⟨op, r, w', hop, hperform⟩

/-- An `fsOpen` with a path that has its terminator. -/
theorem handlers_total_of_open :
    ∃ r w', serve (FileSystem.kernel .lowest) (.open_ 1 (.lit "/srv/a") (by decide) 1)
      (World.start (.lit "/srv") {}) = .ok (r, w') ∧ r.Exact := by
  refine (handlers_total _ _ (by decide)).1.mpr ⟨?_, ?_⟩
  · show sizeofInt = sizeofInt → sizeofInt = sizeofInt → (0 : UInt8) ∈ (CString.lit "/srv/a").mem
    decide
  · intro op hop
    cases (Request.op_open).symm.trans hop
    trivial

/-- The first request the server sees closes a directory that was never opened: the handler follows
a `NULL` pointer. -/
theorem unknown_directory_faults :
    ∃ es w, ServerRun (FileSystem.kernel .lowest) Run.free (.lit "/srv") {} es w ∧
      ((Request.closeDir 1 5 0).args.length : ℤ) = Proc.fsCloseDir.nparams.toInt ∧
      serve (FileSystem.kernel .lowest) (.closeDir 1 5 0) w = .error .nullDeref := by
  refine ⟨[], World.start (.lit "/srv") {}, .start, by decide, ?_⟩
  rw [serve_of_op Request.op_closeDir]
  rfl

end RemoteFs
