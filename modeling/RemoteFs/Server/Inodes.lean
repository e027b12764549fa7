import RemoteFs.Server.FileSystem
import RemoteFs.Server.History

/-!
# The way to a file

A file of the file system is reached by its names and by the descriptors that are open on it.
`Leads fs path i data f?` says that there is one way only: `path` is the one name of inode `i`, and
`f?`, if anything, the one open file on it; `data` is what the file contains.

Each call is considered twice.  Made on another path or another descriptor it leaves the file, its
way and its contents as they are (`Leads.open_`, `Leads.close`, `Leads.write`, …), whoever makes it;
made on the descriptor itself it moves the offset and writes at it (`Leads.write_self`,
`Leads.read_self`, `Leads.close_self`).

That a new file is a new one rests on `WellFormed`, which every call keeps: numbers of files are
given out in order, and no two open files share a descriptor.

`Performed.kern` is what all this has to do with the server: a request that is not refused does the
one call of its operation, and `Leads.kern` then says which operations leave a file alone.
-/

set_option autoImplicit false

namespace RemoteFs

namespace FileSystem

/-! ## Numbers that are not given out twice -/

/-- Whatever is named or open is older than the next file, and descriptors are different. -/
structure WellFormed (fs : FileSystem) : Prop where
  names : ∀ x ∈ fs.names, ∀ i, x.2 = .file i → i < fs.nextInode
  files : ∀ f ∈ fs.files, ∀ i, f.object = .file i → i < fs.nextInode
  nodup : (fs.files.map OpenFile.fd).Nodup

section
variable {P : Policy} {fs : FileSystem} {path : CString} {m n : Int32}

theorem mem_of_file? {f : OpenFile} (h : fs.file? n = some f) : f ∈ fs.files ∧ f.fd = n :=
  ⟨List.mem_of_find?_eq_some h, by simpa using List.find?_some h⟩

theorem mem_used {f : OpenFile} (h : f ∈ fs.files) : f.fd ∈ fs.used :=
  List.mem_append_left _ (List.mem_map_of_mem h)

theorem mem_of_lookup {l : List (CString × Object)} {o : Object} (h : l.lookup path = some o) :
    (path, o) ∈ l := by
  obtain ⟨l₁, l₂, rfl, -⟩ := List.lookup_eq_some_iff.mp h
  simp

/-- A new descriptor, if there is one left. -/
theorem install_cases (P : Policy) (fs : FileSystem) (object : Object) (writable : Bool) :
    (fs.install P object writable = (.error EMFILE, fs)) ∨
      ∃ (n : Int32) (hn : 0 < n), n ∉ fs.used ∧
        fs.install P object writable = (.ok ⟨n, Int32.le_of_lt hn⟩,
          { fs with files := ⟨n, object, 0, writable⟩ :: fs.files, opens := fs.opens + 1 }) := by
  cases h : P.pick fs.opens fs.used with
  | none =>
    left
    rw [install]
    split
    · rfl
    · rename_i hsome
      rw [h] at hsome
      cases hsome
  | some n => exact .inr ⟨n, P.pos h, P.fresh h, install_eq h object writable⟩

@[simp] theorem fds_seek (fs : FileSystem) (m : Int32) (offset : ℕ) :
    (fs.seek m offset).files.map OpenFile.fd = fs.files.map OpenFile.fd := by
  rw [seek, List.map_map]
  refine List.map_congr_left fun f _ ↦ ?_
  simp only [Function.comp_apply]
  split <;> rfl

/-- Moving the offset of one open file changes no file's object. -/
theorem mem_seek {offset : ℕ} {g : OpenFile} (h : g ∈ (fs.seek m offset).files) :
    ∃ f ∈ fs.files, g.fd = f.fd ∧ g.object = f.object := by
  obtain ⟨f, hf, rfl⟩ := List.mem_map.mp h
  refine ⟨f, hf, ?_⟩
  split <;> exact ⟨rfl, rfl⟩

/-- Moving offsets does not change which open file a descriptor denotes. -/
theorem file?_seek (fs : FileSystem) (m n : Int32) (offset : ℕ) :
    (fs.seek m offset).file? n
      = (fs.file? n).map fun f ↦ if f.fd = m then { f with offset := offset } else f := by
  rw [file?, seek, List.find?_map]
  congr 2
  funext f
  simp only [Function.comp_apply]
  split <;> rfl

theorem file?_seek_of_ne (h : n ≠ m) (offset : ℕ) : (fs.seek m offset).file? n = fs.file? n := by
  rw [file?_seek]
  cases hf : fs.file? n with
  | none => rfl
  | some f =>
    obtain ⟨-, rfl⟩ := mem_of_file? hf
    exact congrArg some (if_neg h)

theorem file?_seek_self {f : OpenFile} (h : fs.file? n = some f) (offset : ℕ) :
    (fs.seek n offset).file? n = some { f with offset := offset } := by
  rw [file?_seek, h]
  exact congrArg some (if_pos (mem_of_file? h).2)

theorem nodup_install (h : (fs.files.map OpenFile.fd).Nodup) (object : Object) (writable : Bool) :
    ((fs.install P object writable).2.files.map OpenFile.fd).Nodup := by
  obtain heq | ⟨n, hn, hnew, heq⟩ := install_cases P fs object writable
  · rw [heq]
    exact h
  · rw [heq]
    exact List.nodup_cons.mpr ⟨fresh_fds hnew, h⟩

theorem install_pos {object : Object} {writable : Bool} {fd : Fd}
    (h : (fs.install P object writable).1 = .ok fd) : 0 < fd.1 ∧ fd.1 ∉ fs.used := by
  obtain heq | ⟨n, hn, hnew, heq⟩ := install_cases P fs object writable <;> rw [heq] at h
  · cases h
  · cases h
    exact ⟨hn, hnew⟩

/-- A descriptor that is handed out is positive and new. -/
theorem open_pos {flags : Int32} {fd : Fd} (h : (fs.open_ P path flags).1 = .ok fd) :
    0 < fd.1 ∧ fd.1 ∉ fs.used := by
  rw [open_] at h
  split at h
  · cases h
  · split at h
    · exact install_pos h
    · split at h
      · exact install_pos h
      · cases h
    · split at h
      · cases h
      split at h
      · cases h
      · have hpos : 0 < fd.1 ∧ fd.1 ∉ (fs.create path).used := install_pos h
        exact hpos

/-! ### Every call keeps them so -/

theorem WellFormed.empty : WellFormed {} := ⟨nofun, nofun, List.nodup_nil⟩

theorem WellFormed.install (h : fs.WellFormed) {object : Object}
    (hobj : ∀ i, object = .file i → i < fs.nextInode) (writable : Bool) :
    (fs.install P object writable).2.WellFormed := by
  refine ⟨?_, ?_, nodup_install h.nodup object writable⟩ <;>
    obtain heq | ⟨n, hn, -, heq⟩ := install_cases P fs object writable <;> rw [heq]
  · exact h.names
  · exact h.names
  · exact h.files
  · intro f hf i hi
    rcases List.mem_cons.mp hf with rfl | hf
    · exact hobj i hi
    · exact h.files f hf i hi

theorem WellFormed.create (h : fs.WellFormed) (path : CString) : (fs.create path).WellFormed where
  names x hx i hi := by
    rcases List.mem_cons.mp hx with rfl | hx
    · cases hi
      exact Nat.lt_succ_self _
    · exact Nat.lt_succ_of_lt (h.names x hx i hi)
  files f hf i hi := Nat.lt_succ_of_lt (h.files f hf i hi)
  nodup := h.nodup

theorem WellFormed.open_ (h : fs.WellFormed) (path : CString) (flags : Int32) :
    (fs.open_ P path flags).2.WellFormed := by
  rw [FileSystem.open_]
  split
  · exact h
  · split
    · rename_i i hi
      exact h.install (fun _ hj ↦ h.names _ (mem_of_lookup hi) _ hj) _
    · split
      · exact h.install (by rintro _ ⟨⟩) _
      · exact h
    · split
      · exact h
      split
      · exact h
      · refine (h.create path).install ?_ _
        rintro _ ⟨⟩
        exact Nat.lt_succ_self _

theorem WellFormed.close (h : fs.WellFormed) (n : Int32) : (fs.close n).2.WellFormed := by
  rw [FileSystem.close]
  split
  · exact h
  · refine ⟨h.names, fun f hf ↦ h.files f (List.mem_of_mem_eraseP hf), ?_⟩
    exact h.nodup.sublist (List.eraseP_sublist.map _)

theorem WellFormed.seek (h : fs.WellFormed) (n : Int32) (offset : ℕ) :
    (fs.seek n offset).WellFormed where
  names := h.names
  files f hf i hi := by
    obtain ⟨g, hg, -, hobj⟩ := mem_seek hf
    exact h.files g hg i (hobj ▸ hi)
  nodup := by
    rw [fds_seek]
    exact h.nodup

/-- Reading only moves an offset. -/
theorem read_cases (fs : FileSystem) (n : Int32) (count : ℕ) :
    (fs.read n count).2 = fs ∨ ∃ offset, (fs.read n count).2 = fs.seek n offset := by
  rw [FileSystem.read]
  split
  · exact .inl rfl
  · split
    · exact .inl rfl
    · split
      · exact .inl rfl
      · exact .inr ⟨_, rfl⟩

theorem WellFormed.read (h : fs.WellFormed) (n : Int32) (count : ℕ) :
    (fs.read n count).2.WellFormed := by
  obtain heq | ⟨offset, heq⟩ := fs.read_cases n count <;> rw [heq]
  · exact h
  · exact h.seek n offset

theorem WellFormed.write (h : fs.WellFormed) (n : Int32) (data : Bytes) :
    (fs.write n data).2.WellFormed := by
  rw [FileSystem.write]
  split
  · exact h
  · split
    · split
      · exact h
      · exact ⟨h.names, (h.seek n _).files, (h.seek n _).nodup⟩
    · exact h

theorem WellFormed.remove (h : fs.WellFormed) (path : CString) :
    (fs.remove path).2.WellFormed := by
  rw [FileSystem.remove]
  split
  · exact h
  · exact h
  · exact ⟨fun x hx ↦ h.names x (List.mem_of_mem_filter hx), h.files, h.nodup⟩

/-- The calls on directories look at names, and at nothing else that is considered here. -/
structure SameFiles (fs fs' : FileSystem) : Prop where
  names : fs'.names = fs.names
  content : fs'.content = fs.content
  nextInode : fs'.nextInode = fs.nextInode
  files : fs'.files = fs.files

theorem SameFiles.refl (fs : FileSystem) : SameFiles fs fs := ⟨rfl, rfl, rfl, rfl⟩

theorem sameFiles_opendir (P : Policy) (fs : FileSystem) (path : CString) :
    SameFiles fs (fs.opendir P path).2 := by
  rw [opendir]
  split
  · exact .refl fs
  · exact .refl fs
  · split
    · exact .refl fs
    · exact ⟨rfl, rfl, rfl, rfl⟩

theorem sameFiles_readdir (fs : FileSystem) (d : Dir) : SameFiles fs (fs.readdir d).2 := by
  rw [readdir]
  split
  · exact .refl fs
  · exact .refl fs
  · exact ⟨rfl, rfl, rfl, rfl⟩

theorem sameFiles_closedir (fs : FileSystem) (d : Dir) : SameFiles fs (fs.closedir d).2 := by
  rw [closedir]
  split
  · exact .refl fs
  · exact ⟨rfl, rfl, rfl, rfl⟩

theorem WellFormed.sameFiles {fs' : FileSystem} (h : fs.WellFormed) (hsame : SameFiles fs fs') :
    fs'.WellFormed where
  names := by
    rw [hsame.names, hsame.nextInode]
    exact h.names
  files := by
    rw [hsame.files, hsame.nextInode]
    exact h.files
  nodup := by
    rw [hsame.files]
    exact h.nodup

end

/-! ## The one way to a file -/

/-- Inode `i` contains `data`, `path` is its only name, and `f?` the only open file on it. -/
structure Leads (fs : FileSystem) (path : CString) (i : ℕ) (data : Bytes) (f? : Option OpenFile) :
    Prop extends fs.WellFormed where
  named : fs.names.lookup path = some (.file i)
  unlinked : ∀ x ∈ fs.names, x.2 = .file i → x.1 = path
  content : fs.content i = data
  opened : ∀ f, f? = some f → fs.file? f.fd = some f ∧ f.object = .file i
  only : ∀ g ∈ fs.files, g.object = .file i → f?.map OpenFile.fd = some g.fd

namespace Leads

variable {P : Policy} {fs : FileSystem} {path q : CString} {i : ℕ} {data : Bytes}
  {f? : Option OpenFile} {f : OpenFile} {m : Int32}

theorem old (h : fs.Leads path i data f?) : i < fs.nextInode :=
  h.names _ (mem_of_lookup h.named) i rfl

/-- An open file with another descriptor is on something else. -/
theorem object_ne (h : fs.Leads path i data f?) (hm : f?.map OpenFile.fd ≠ some m) {g : OpenFile}
    (hg : fs.file? m = some g) : g.object ≠ .file i := by
  obtain ⟨hmem, rfl⟩ := mem_of_file? hg
  exact fun hobj ↦ hm (h.only g hmem hobj)

theorem lookup_ne (h : fs.Leads path i data f?) (hq : q ≠ path) :
    fs.names.lookup q ≠ some (.file i) :=
  fun hlookup ↦ hq (h.unlinked _ (mem_of_lookup hlookup) rfl)

/-! ### Calls on something else -/

theorem install (h : fs.Leads path i data f?) {object : Object}
    (hold : ∀ j, object = .file j → j < fs.nextInode) (hobj : object ≠ .file i) (writable : Bool) :
    (fs.install P object writable).2.Leads path i data f? := by
  have hwf := h.toWellFormed.install (P := P) hold writable
  obtain heq | ⟨n, hn, hnew, heq⟩ := install_cases P fs object writable <;> rw [heq] at hwf ⊢
  · exact h
  · refine ⟨hwf, h.named, h.unlinked, h.content, fun f hf ↦ ?_, fun g hg hon ↦ ?_⟩
    · obtain ⟨hfile, hon⟩ := h.opened f hf
      have hne : n ≠ f.fd := by
        rintro rfl
        exact hnew (mem_used (mem_of_file? hfile).1)
      refine ⟨?_, hon⟩
      rw [file?] at hfile ⊢
      rw [List.find?_cons]
      simpa [hne] using hfile
    · rcases List.mem_cons.mp hg with rfl | hg
      · exact absurd hon hobj
      · exact h.only g hg hon

theorem create (h : fs.Leads path i data f?) (hq : q ≠ path) :
    (fs.create q).Leads path i data f? where
  toWellFormed := h.toWellFormed.create q
  named := by
    rw [FileSystem.create, List.lookup_cons, beq_false_of_ne hq.symm]
    exact h.named
  unlinked x hx hobj := by
    rcases List.mem_cons.mp hx with rfl | hx
    · cases hobj
      exact absurd h.old (Nat.lt_irrefl _)
    · exact h.unlinked x hx hobj
  content := (Function.update_of_ne (Nat.ne_of_lt h.old) _ _).trans h.content
  opened := h.opened
  only := h.only

/-- Another path is opened. -/
theorem open_ (h : fs.Leads path i data f?) (hq : q ≠ path) (flags : Int32) :
    (fs.open_ P q flags).2.Leads path i data f? := by
  rw [FileSystem.open_]
  split
  · exact h
  · split
    · rename_i j hj
      refine h.install ?_ ?_ _
      · exact fun k hk ↦ h.names _ (mem_of_lookup hj) k hk
      · rintro ⟨⟩
        exact h.lookup_ne hq hj
    · split
      · exact h.install (by rintro _ ⟨⟩) (by rintro ⟨⟩) _
      · exact h
    · split
      · exact h
      split
      · exact h
      · refine (h.create hq).install ?_ ?_ _
        · rintro _ ⟨⟩
          exact Nat.lt_succ_self _
        · rintro ⟨⟩
          exact absurd h.old (Nat.lt_irrefl _)

/-- Another descriptor is closed. -/
theorem close (h : fs.Leads path i data f?) (hm : f?.map OpenFile.fd ≠ some m) :
    (fs.close m).2.Leads path i data f? := by
  have hwf := h.toWellFormed.close m
  rw [FileSystem.close] at hwf ⊢
  split at hwf
  · exact h
  · refine ⟨hwf, h.named, h.unlinked, h.content, fun f hf ↦ ?_, fun g hg hon ↦ ?_⟩
    · obtain ⟨hfile, hon⟩ := h.opened f hf
      refine ⟨FirstMatch.find?_eraseP_of_ne hfile fun hfind ↦ ?_, hon⟩
      have hfd : f.fd = m := by simpa using List.find?_some hfind
      rw [hf, ← hfd] at hm
      exact hm rfl
    · exact h.only g (List.mem_of_mem_eraseP hg) hon

theorem seek (h : fs.Leads path i data f?) (hm : f?.map OpenFile.fd ≠ some m) (offset : ℕ) :
    (fs.seek m offset).Leads path i data f? where
  toWellFormed := h.toWellFormed.seek m offset
  named := h.named
  unlinked := h.unlinked
  content := h.content
  opened f hf := by
    obtain ⟨hfile, hon⟩ := h.opened f hf
    rw [hf] at hm
    exact ⟨(file?_seek_of_ne (fun heq ↦ hm (congrArg some heq)) offset).trans hfile, hon⟩
  only g hg hon := by
    obtain ⟨g', hg', hfd, hobj⟩ := mem_seek hg
    rw [hfd]
    exact h.only g' hg' (hobj ▸ hon)

/-- Another descriptor is read from. -/
theorem read (h : fs.Leads path i data f?) (hm : f?.map OpenFile.fd ≠ some m) (count : ℕ) :
    (fs.read m count).2.Leads path i data f? := by
  obtain heq | ⟨offset, heq⟩ := fs.read_cases m count <;> rw [heq]
  · exact h
  · exact h.seek hm offset

/-- Another descriptor is written to. -/
theorem write (h : fs.Leads path i data f?) (hm : f?.map OpenFile.fd ≠ some m) (bs : Bytes) :
    (fs.write m bs).2.Leads path i data f? := by
  rw [FileSystem.write]
  split
  · exact h
  · rename_i g hg
    split
    · split
      · exact h
      · rename_i j hj
        have hne : i ≠ j := by
          rintro rfl
          exact h.object_ne hm hg hj
        have hseek := h.seek hm (g.offset + bs.length)
        exact ⟨⟨hseek.names, hseek.files, hseek.nodup⟩, hseek.named, hseek.unlinked,
          (Function.update_of_ne hne _ _).trans h.content, hseek.opened, hseek.only⟩
    · exact h

/-- Another path is removed. -/
theorem remove (h : fs.Leads path i data f?) (hq : q ≠ path) :
    (fs.remove q).2.Leads path i data f? := by
  have hlookup : (fs.names.filter fun x ↦ x.1 ≠ q).lookup path = some (.file i) := by
    obtain ⟨l₁, l₂, heq, hnot⟩ := List.lookup_eq_some_iff.mp h.named
    rw [heq, List.filter_append, List.filter_cons, if_pos (by simpa using hq.symm)]
    exact List.lookup_eq_some_iff.mpr ⟨_, _, rfl, fun x hx ↦ hnot x (List.mem_of_mem_filter hx)⟩
  have hwf := h.toWellFormed.remove q
  rw [FileSystem.remove] at hwf ⊢
  split at hwf
  · exact h
  · exact h
  · exact ⟨hwf, hlookup, fun x hx ↦ h.unlinked x (List.mem_of_mem_filter hx), h.content, h.opened,
      h.only⟩

theorem sameFiles {fs' : FileSystem} (h : fs.Leads path i data f?) (hsame : SameFiles fs fs') :
    fs'.Leads path i data f? where
  toWellFormed := h.toWellFormed.sameFiles hsame
  named := by
    rw [hsame.names]
    exact h.named
  unlinked := by
    rw [hsame.names]
    exact h.unlinked
  content := by
    rw [hsame.content]
    exact h.content
  opened := by
    simp only [file?, hsame.files]
    exact h.opened
  only := by
    rw [hsame.files]
    exact h.only

/-! ### Calls on the descriptor itself -/

theorem seek_self (h : fs.Leads path i data (some f)) (offset : ℕ) :
    (fs.seek f.fd offset).Leads path i data (some { f with offset := offset }) where
  toWellFormed := h.toWellFormed.seek f.fd offset
  named := h.named
  unlinked := h.unlinked
  content := h.content
  opened g hg := by
    obtain rfl := Option.some.inj hg
    obtain ⟨hfile, hon⟩ := h.opened f rfl
    exact ⟨file?_seek_self hfile offset, hon⟩
  only g hg hon := by
    obtain ⟨g', hg', hfd, hobj⟩ := mem_seek hg
    rw [hfd]
    exact h.only g' hg' (hobj ▸ hon)

/-- **Reading goes on where the last call stopped.** -/
theorem read_self (h : fs.Leads path i data (some f)) (hf : f.writable = false) (count : ℕ) :
    ∃ fs', fs.read f.fd count
        = (.ok ⟨(data.drop f.offset).take count, List.length_take_le _ _⟩, fs') ∧
      fs'.Leads path i data
        (some { f with offset := f.offset + ((data.drop f.offset).take count).length }) := by
  obtain ⟨hfile, hon⟩ := h.opened f rfl
  obtain rfl := h.content
  refine ⟨_, ?_, h.seek_self _⟩
  simp only [FileSystem.read, hfile, hf, hon, Bool.false_eq_true, if_false]

/-- **Writing goes on where the last call stopped.** -/
theorem write_self (h : fs.Leads path i data (some f)) (hf : f.writable = true) (bs : Bytes) :
    ∃ fs', fs.write f.fd bs = (.ok ⟨bs.length, le_refl _⟩, fs') ∧
      fs'.Leads path i (overwrite data f.offset bs)
        (some { f with offset := f.offset + bs.length }) := by
  obtain ⟨hfile, hon⟩ := h.opened f rfl
  obtain rfl := h.content
  have hwrite : fs.write f.fd bs = (.ok ⟨bs.length, le_refl _⟩,
      { fs.seek f.fd (f.offset + bs.length) with
        content := Function.update fs.content i (overwrite (fs.content i) f.offset bs) }) := by
    simp only [FileSystem.write, hfile, hf, hon, if_true]
  have hseek := h.seek_self (f.offset + bs.length)
  exact ⟨_, hwrite, ⟨hseek.names, hseek.files, hseek.nodup⟩, hseek.named, hseek.unlinked,
    Function.update_self .., hseek.opened, hseek.only⟩

/-- A descriptor opened to write cannot be read from. -/
theorem read_of_writable (h : fs.Leads path i data (some f)) (hf : f.writable = true)
    (count : ℕ) : fs.read f.fd count = (.error EBADF, fs) := by
  simp only [FileSystem.read, (h.opened f rfl).1, hf, if_true]

/-- A descriptor opened to read cannot be written to. -/
theorem write_of_readable (h : fs.Leads path i data (some f)) (hf : f.writable = false)
    (bs : Bytes) : fs.write f.fd bs = (.error EBADF, fs) := by
  simp only [FileSystem.write, (h.opened f rfl).1, hf, Bool.false_eq_true, if_false]

/-- After closing it, nothing is open on the file. -/
theorem close_self (h : fs.Leads path i data (some f)) :
    ∃ fs', fs.close f.fd = (.ok (), fs') ∧ fs'.Leads path i data none := by
  obtain ⟨hfile, -⟩ := h.opened f rfl
  have hclose : fs.close f.fd
      = (.ok (), { fs with files := fs.files.eraseP fun g ↦ g.fd = f.fd }) := by
    simp only [FileSystem.close, hfile]
  have hwf := h.toWellFormed.close f.fd
  rw [hclose] at hwf
  refine ⟨_, hclose, hwf, h.named, h.unlinked, h.content, ?_, fun g hg hon ↦ ?_⟩
  · rintro _ ⟨⟩
  -- there is one open file with the descriptor, and it has been erased
  have hfd : f.fd = g.fd := Option.some.inj (h.only g (List.mem_of_mem_eraseP hg) hon)
  obtain ⟨g', pre, post, hpre, hg', heq, herase⟩ :=
    List.exists_of_eraseP (mem_of_file? hfile).1 (p := fun g ↦ g.fd = f.fd) (by simp)
  have hnodup := h.nodup
  rw [heq, List.map_append, List.map_cons] at hnodup
  have hnot := (List.nodup_middle.mp hnodup)
  rw [List.nodup_cons, ← List.map_append, ← herase] at hnot
  exact absurd (List.mem_map.mpr ⟨g, hg, hfd.symm.trans (of_decide_eq_true hg').symm⟩) hnot.1

end Leads

/-! ### Opening the file -/

section
variable {P : Policy} {fs : FileSystem} {path : CString}

/-- What the file of a path contains; `none` for a directory, or when there is nothing. -/
def fileAt (fs : FileSystem) (path : CString) : Option Bytes :=
  match fs.names.lookup path with
  | some (.file i) => some (fs.content i)
  | _ => none

theorem Leads.fileAt {i : ℕ} {data : Bytes} {f? : Option OpenFile}
    (h : fs.Leads path i data f?) : fs.fileAt path = some data := by
  simp only [FileSystem.fileAt, h.named, h.content]

/-- The file of a path, if there is one, has no other name, and nobody has it open. -/
structure Unshared (fs : FileSystem) (path : CString) : Prop where
  unlinked : ∀ i, fs.names.lookup path = some (.file i) → ∀ x ∈ fs.names, x.2 = .file i → x.1 = path
  unopened : ∀ i, fs.names.lookup path = some (.file i) → ∀ g ∈ fs.files, g.object ≠ .file i

theorem Leads.unshared {i : ℕ} {data : Bytes} (h : fs.Leads path i data none) :
    fs.Unshared path where
  unlinked j hj := by
    rw [h.named] at hj
    cases hj
    exact h.unlinked
  unopened j hj g hg hon := by
    rw [h.named] at hj
    cases hj
    cases h.only g hg hon

theorem Unshared.leads (h : fs.Unshared path) (hwf : fs.WellFormed) {data : Bytes}
    (hdata : fs.fileAt path = some data) : ∃ i, fs.Leads path i data none := by
  rw [FileSystem.fileAt] at hdata
  split at hdata
  · rename_i i hi
    cases hdata
    exact ⟨i, hwf, hi, h.unlinked i hi, rfl, nofun, fun g hg hon ↦ absurd hon (h.unopened i hi g hg)⟩
  · cases hdata

theorem WellFormed.leads_create (h : fs.WellFormed) (path : CString) :
    (fs.create path).Leads path fs.nextInode [] none where
  toWellFormed := h.create path
  named := List.lookup_cons_self
  unlinked x hx hobj := by
    rcases List.mem_cons.mp hx with rfl | hx
    · rfl
    · exact absurd (h.names x hx _ hobj) (Nat.lt_irrefl _)
  content := Function.update_self ..
  opened := nofun
  only g hg hon := absurd (h.files g hg _ hon) (Nat.lt_irrefl _)

theorem Leads.install_self {i : ℕ} {data : Bytes} (h : fs.Leads path i data none) {writable : Bool}
    {fd : Fd} (hfd : (fs.install P (.file i) writable).1 = .ok fd) :
    (fs.install P (.file i) writable).2.Leads path i data (some ⟨fd.1, .file i, 0, writable⟩) := by
  have hwf : (fs.install P (.file i) writable).2.WellFormed := by
    refine h.toWellFormed.install ?_ writable
    rintro _ ⟨⟩
    exact h.old
  obtain heq | ⟨n, hn, -, heq⟩ := install_cases P fs (.file i) writable
  · rw [heq] at hfd
    cases hfd
  · rw [heq] at hfd hwf ⊢
    cases hfd
    refine ⟨hwf, h.named, h.unlinked, h.content, fun f hf ↦ ?_, fun g hg hon ↦ ?_⟩
    · cases hf
      exact ⟨by simp [file?], rfl⟩
    · rcases List.mem_cons.mp hg with rfl | hg
      · rfl
      · cases h.only g hg hon

/-- **Opening a file nobody uses.**  The descriptor is the only way to the file from then on. -/
theorem Unshared.open_ (h : fs.Unshared path) (hwf : fs.WellFormed) {flags : Int32}
    (hfile : flags ≠ 0 ∨ (fs.fileAt path).isSome = true) {fd : Fd}
    (hfd : (fs.open_ P path flags).1 = .ok fd) :
    ∃ i, (fs.open_ P path flags).2.Leads path i ((fs.fileAt path).getD [])
      (some ⟨fd.1, .file i, 0, decide (flags ≠ 0)⟩) := by
  have hdata : fs.fileAt path = match fs.names.lookup path with
    | some (.file i) => some (fs.content i)
    | _ => none := rfl
  rw [FileSystem.open_] at hfd ⊢
  by_cases hlong : PATH_MAX ≤ path.strlen
  · rw [if_pos hlong] at hfd
    cases hfd
  · rw [if_neg hlong] at hfd ⊢
    cases hlookup : fs.names.lookup path with
    | none =>
      rw [hlookup] at hdata
      have hflags : flags ≠ 0 := hfile.resolve_right (by simp [hdata])
      simp only [hlookup, if_neg hflags] at hfd ⊢
      by_cases hnone : (P.pick fs.opens fs.used).isNone = true
      · rw [if_pos hnone] at hfd
        cases hfd
      rw [if_neg hnone] at hfd ⊢
      rw [hdata, decide_eq_true hflags]
      exact ⟨_, (hwf.leads_create path).install_self hfd⟩
    | some object =>
      rw [hlookup] at hdata
      cases object with
      | file i =>
        simp only [hlookup] at hfd ⊢
        obtain ⟨j, hleads⟩ := h.leads hwf hdata
        obtain rfl : j = i := by
          have hnamed := hleads.named
          rw [hlookup] at hnamed
          cases hnamed
          rfl
        rw [hdata]
        exact ⟨j, hleads.install_self hfd⟩
      | dir es =>
        have hflags : flags ≠ 0 := hfile.resolve_right (by simp [hdata])
        simp only [hlookup, if_neg hflags] at hfd
        cases hfd

end

end FileSystem

/-! ## The call of a request -/

section
variable {κ : Type} {K : Kernel κ} {w w' : World κ}

/-- The kernel after the call of an operation. -/
def Op.kern (K : Kernel κ) (w : World κ) : Op → κ
  | .ignored | .mount | .unmount _ => w.kern
  | .openDir _ p => (K.opendir w.kern p).2
  | .readDir n => ((findNode w.srv.openDirQueue n).map fun d ↦ (K.readdir w.kern d.dir).2).getD w.kern
  | .closeDir _ n =>
    ((findNode w.srv.openDirQueue n).map fun d ↦ (K.closedir w.kern d.dir).2).getD w.kern
  | .remove _ p => (K.remove w.kern p).2
  | .open_ _ mode p => (K.open_ w.kern p (openFlags mode)).2
  | .close _ n => (K.close w.kern n).2
  | .read n count => (K.read w.kern n (sizeT count)).2
  | .write _ n count buf => (K.write w.kern n (buf.take (sizeT count))).2

theorem Performed.kern {op : Op} {r : ReturnType} (h : Performed K w op r w') :
    w'.kern = op.kern K w := by
  cases h with
  | ignored | unmount => rfl
  | mount h => rw [mountClient_world h]; rfl
  | readDir h =>
    obtain ⟨d, hd, rfl⟩ := readDirNum_world h
    simp [Op.kern, hd]
  | read h => rw [readFd_world h]; rfl
  | write h => rw [writeFd_world h]; rfl
  | open_ | noDir | close | remove => rfl
  | openDir _ _ hopened => exact hopened.kern
  | closeDir hd => simp [Op.kern, hd]

/-- **A request is refused, or does the one call of its operation.** -/
theorem performed_of_serverStep {e : Event} (h : serverStep K w e w') :
    ∃ op, e.req.op = .ok op ∧
      (op.blocked w.srv.resourceList e.req.garbage = true ∧ w' = w ∨
        op.blocked w.srv.resourceList e.req.garbage = false ∧ Performed K w op e.reply w') := by
  obtain ⟨op, hop, hperform⟩ := op_of_serve h.1
  refine ⟨op, hop, ?_⟩
  cases hb : op.blocked w.srv.resourceList e.req.garbage with
  | true =>
    rw [perform_of_blocked K hb, Except.ok.injEq, Prod.mk.injEq] at hperform
    exact .inl ⟨rfl, hperform.2.symm⟩
  | false => exact .inr ⟨rfl, performed_of_perform hb hperform⟩

end

section
variable {P : Policy}

theorem FileSystem.WellFormed.kern {w : World FileSystem} (h : w.kern.WellFormed) (op : Op) :
    (op.kern (kernel P) w).WellFormed := by
  cases op with
  | ignored | mount | unmount => exact h
  | openDir c p => exact h.sameFiles (sameFiles_opendir _ _ _)
  | readDir n =>
    rw [Op.kern]
    cases findNode w.srv.openDirQueue n with
    | none => exact h
    | some d => exact h.sameFiles (sameFiles_readdir _ _)
  | closeDir c n =>
    rw [Op.kern]
    cases findNode w.srv.openDirQueue n with
    | none => exact h
    | some d => exact h.sameFiles (sameFiles_closedir _ _)
  | remove c p => exact h.remove p
  | open_ c mode p => exact h.open_ p _
  | close c n => exact h.close n
  | read n count => exact h.read n _
  | write c n count buf => exact h.write n _

/-- **Every state a server reaches on a well-formed file system is well formed.** -/
theorem FileSystem.wellFormed_of_run {guard : List Event → World FileSystem → Event → Prop}
    {dir : CString} {k : FileSystem} (hk : k.WellFormed) {es : List Event} {w : World FileSystem}
    (h : ServerRun (kernel P) guard dir k es w) : w.kern.WellFormed := by
  refine Run.invariant (I := fun _ w ↦ w.kern.WellFormed) hk ?_ h
  intro es w e w' _ hI _ hstep
  obtain ⟨op, -, ⟨-, rfl⟩ | ⟨-, hperformed⟩⟩ := performed_of_serverStep hstep
  · exact hI
  · rw [hperformed.kern]
    exact hI.kern op

/-- What an operation has to leave alone for the file of `path`, open as `fd?`, to stay as it is. -/
def Op.Elsewhere (path : CString) (fd? : Option Int32) : Op → Prop
  | .open_ _ _ q | .remove _ q => q ≠ path
  | .close _ m | .read m _ | .write _ m _ _ => fd? ≠ some m
  | _ => True

/-- **The frame of a file**: what is done elsewhere does not reach it. -/
theorem FileSystem.Leads.kern {w : World FileSystem} {path : CString} {i : ℕ} {data : Bytes}
    {f? : Option OpenFile} (h : w.kern.Leads path i data f?) {op : Op}
    (hop : op.Elsewhere path (f?.map OpenFile.fd)) :
    (op.kern (kernel P) w).Leads path i data f? := by
  cases op with
  | ignored | mount | unmount => exact h
  | openDir c p => exact h.sameFiles (sameFiles_opendir _ _ _)
  | readDir n =>
    rw [Op.kern]
    cases findNode w.srv.openDirQueue n with
    | none => exact h
    | some d => exact h.sameFiles (sameFiles_readdir _ _)
  | closeDir c n =>
    rw [Op.kern]
    cases findNode w.srv.openDirQueue n with
    | none => exact h
    | some d => exact h.sameFiles (sameFiles_closedir _ _)
  | remove c p => exact h.remove hop
  | open_ c mode p => exact h.open_ hop _
  | close c n => exact h.close hop
  | read n count => exact h.read hop _
  | write c n count buf => exact h.write hop _

end

end RemoteFs
