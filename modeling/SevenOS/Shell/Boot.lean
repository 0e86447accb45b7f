import SevenOS.FileSystem.Capacity
import SevenOS.Shell.Gate

/-! # The start of the kernel

`init` mounts the disk, and formats it when it cannot be mounted. Whatever the disk
held, what is mounted is what the disk holds then, so a restart finds the same; and the
login lets in whoever types the password within three lines.
-/

namespace SevenOS

open Prog

variable {dev : Device} {host : HeapHost} {test : FsM Unit} {stray unflushed : InodeNo → Prop}
  {k k' : Kernel} {m m' : Machine} {v : Volume} {s : Fs} {hash : UInt32} {disk : UInt32 → Block}

/-! ## Any disk -/

/-- The superblock that `fs_init` accepts. -/
def Mountable (disk : UInt32 → Block) : Prop :=
  (Superblock.decode (disk fsSuperLba)).magic = fsMagic ∧
    (Superblock.decode (disk fsSuperLba)).blockSize = fsBlockSize

instance (disk : UInt32 → Block) : Decidable (Mountable disk) :=
  inferInstanceAs (Decidable (_ ∧ _))

/-- Tables and superblock are the ones on the disk. -/
def Volume.OnDisk (v : Volume) : Prop :=
  Headed v ∧ v.mounted = true ∧ v.bitmap = v.bitmapOnDisk ∧ v.inodes = v.inodeOnDisk

theorem Volume.OnDisk.unique {v v' : Volume} (h : v.OnDisk) (h' : v'.OnDisk)
    (hdisk : v.disk = v'.disk) : v = v' := by
  obtain ⟨hhead, hmounted, hbitmap, hinodes⟩ := h
  obtain ⟨hhead', hmounted', hbitmap', hinodes'⟩ := h'
  obtain ⟨sb, bitmap, inodes, mounted, disk⟩ := v
  obtain ⟨sb', bitmap', inodes', mounted', disk'⟩ := v'
  obtain rfl : disk = disk' := hdisk
  obtain rfl : sb = sb' := hhead.superblock.symm.trans hhead'.superblock
  obtain rfl : bitmap = bitmap' := hbitmap.trans hbitmap'.symm
  obtain rfl : inodes = inodes' := hinodes.trans hinodes'.symm
  obtain rfl : mounted = mounted' := hmounted.trans hmounted'.symm
  rfl

theorem Headed.reload_onDisk (h : Headed v) : v.reload.OnDisk :=
  ⟨⟨h.superblock, h.magic, h.blockSize⟩, rfl, rfl, rfl⟩

theorem Headed.mountable (h : Headed v) : Mountable v.disk := by
  rw [Mountable, h.superblock]
  exact ⟨h.magic, h.blockSize⟩

/-- It mounts what is on the disk, or the disk is not one it accepts. -/
theorem fsInit_any (hp : dev.Perfect) :
    wp (fsInit dev) (fun _ s' => Mountable s.disk ∧ s'.toVolume.OnDisk ∧ s'.disk = s.disk)
      (fun s' => ¬ Mountable s.disk ∧ s'.mounted = false ∧ s'.disk = s.disk) (fun _ => False) s := by
  by_cases hm : Mountable s.disk
  · have hhead : Headed { s.toVolume with sb := Superblock.decode (s.disk fsSuperLba) } :=
      ⟨rfl, hm.1, hm.2⟩
    refine wp_mono (fsInit_spec hp hhead rfl) ?_ (fun _ hno => hno.elim) fun _ hno => hno
    intro _ s' hv
    rw [hv]
    exact ⟨hm, hhead.reload_onDisk, rfl⟩
  · simp only [fsInit, wp_bind, wp_orElse, hp.wp_loadSuperblock, wp_get, wp_ite]
    refine ⟨fun _ => ⟨hm, rfl, rfl⟩, fun hgood => ?_⟩
    rw [not_or, Decidable.not_not, Decidable.not_not] at hgood
    exact (hm hgood).elim

/-! ## `init` -/

/-- What is known of the machine before the first login. -/
structure Machine.Started (dev : Device) (disk : UInt32 → Block) (m : Machine) : Prop where
  kRoot : m.kRoot = rootPrompt
  phase : m.phase = .login 0
  mounted : m.fs.mounted = true ↔ Mountable disk ∨ 2 ≤ (formatBlocks dev 0).toNat
  onDisk : m.fs.mounted = true → m.fs.toVolume.OnDisk
  kept : Mountable disk ∨ m.fs.mounted = false → m.fs.disk = disk
  formatted : ¬ Mountable disk → 5 ≤ (formatBlocks dev 0).toNat → m.Installed dev

/-- One mount is enough, or there are two with a format between them. -/
theorem Machine.boot_eq {s₁ : Fs} (hinit : fsInit dev (.booted disk) = (.ok (), s₁)) :
    Machine.boot dev disk = ⟨s₁, rootPrompt, .login 0⟩ := by
  rw [Machine.boot, Machine.exec, mountFs, orElse, hinit]

theorem Machine.boot_format {s₁ s₂ s₃ : Fs} {o o' : Outcome Unit}
    (hinit : fsInit dev (.booted disk) = (.refused, s₁))
    (hformat : fsFormat dev 0 64 s₁ = (o, s₂)) (ho : o ≠ .diverged)
    (hagain : fsInit dev s₂ = (o', s₃)) (ho' : o' ≠ .diverged) :
    Machine.boot dev disk = ⟨s₃, rootPrompt, .login 0⟩ := by
  have hrest : (orElse (fsFormat dev 0 64) (pure ()) >>= fun _ =>
      orElse (fsInit dev) (pure ())) s₁ = (.ok (), s₃) := by
    have hformat' : orElse (fsFormat dev 0 64) (pure ()) s₁ = (.ok (), s₂) := by
      rw [orElse, hformat]
      cases o with
      | ok => rfl
      | refused => rfl
      | diverged => exact (ho rfl).elim
    have hagain' : orElse (fsInit dev) (pure ()) s₂ = (.ok (), s₃) := by
      rw [orElse, hagain]
      cases o' with
      | ok => rfl
      | refused => rfl
      | diverged => exact (ho' rfl).elim
    change Prog.bind _ _ s₁ = _
    rw [Prog.bind, hformat']
    exact hagain'
  rw [Machine.boot, Machine.exec, mountFs, orElse, hinit]
  simp only [hrest]

theorem Machine.boot_started (hp : dev.Perfect) (disk : UInt32 → Block) :
    (Machine.boot dev disk).Started dev disk := by
  generalize hinit : fsInit dev (.booted disk) = r
  obtain ⟨o, s₁⟩ := r
  rcases wp_run (fsInit_any hp) hinit with ⟨_, rfl, hm, hon, hdisk⟩ | ⟨rfl, hm, -, hdisk⟩ | ⟨-, hno⟩
  · rw [Machine.boot_eq hinit]
    exact ⟨rfl, rfl, iff_of_true hon.2.1 (.inl hm), fun _ => hon, fun _ => hdisk,
      fun hno => (hno hm).elim⟩
  · generalize hformat : fsFormat dev 0 64 s₁ = r
    obtain ⟨o, s₂⟩ := r
    generalize hagain : fsInit dev s₂ = r
    obtain ⟨o', s₃⟩ := r
    have hfound := wp_run (fsInit_any hp) hagain
    -- with a superblock on the disk the second mount works
    have started : Headed s₂.toVolume → o ≠ .diverged →
        (5 ≤ (formatBlocks dev 0).toNat → fsFormat dev 0 64 s₁ = (.ok (), s₂)) →
        2 ≤ (formatBlocks dev 0).toNat → (Machine.boot dev disk).Started dev disk := by
      intro hhead ho hinstalled hroot
      rcases hfound with ⟨_, rfl, -, hon, -⟩ | ⟨-, hno, -⟩ | ⟨-, hno⟩
      · rw [Machine.boot_format hinit hformat ho hagain (by simp)]
        refine ⟨rfl, rfl, iff_of_true hon.2.1 (.inr hroot), fun _ => hon, ?_,
          fun _ hroom => ⟨0, 64, s₁, s₂, hinstalled hroom, hagain⟩⟩
        rintro (hyes | hno)
        · exact (hm hyes).elim
        · cases hon.2.1.symm.trans hno
      · exact (hno hhead.mountable).elim
      · exact hno.elim
    rcases wp_run (fsFormat_decides hp 0 64) hformat with
      ⟨_, rfl, hroom, hhead⟩ | ⟨rfl, hno, ⟨hroot, hhead⟩ | ⟨hlt, hsame⟩⟩ | ⟨-, hno⟩
    · exact started hhead (by simp) (fun _ => hformat) (by omega)
    · exact started hhead (by simp) (fun hroom => (hno ⟨hroom, by decide⟩).elim) hroot
    · rcases hfound with ⟨_, -, hyes, -⟩ | ⟨rfl, hno', hunmounted, hdisk'⟩ | ⟨-, hno⟩
      · rw [hsame, hdisk] at hyes
        exact (hm hyes).elim
      · have hkeep : s₃.disk = disk := hdisk'.trans (hsame.trans hdisk)
        rw [Machine.boot_format hinit hformat (by simp) hagain (by simp)]
        have hnone : ¬ s₃.mounted = true := by simp [hunmounted]
        refine ⟨rfl, rfl, iff_of_false hnone ?_, fun hyes => (hnone hyes).elim, fun _ => hkeep,
          fun _ hroom => by omega⟩
        rintro (hyes | hroot)
        · exact hm hyes
        · omega
      · exact hno.elim
    · exact hno.elim
  · exact hno.elim

/-- Whatever is on the disk, the start ends at the login. A volume is mounted when there was one
or the disk has two blocks, it is the one on the disk, and the next start mounts it again. -/
theorem boot_mounts (hp : dev.Perfect) (disk : UInt32 → Block) :
    (Machine.boot dev disk).phase = .login 0 ∧
      ((Machine.boot dev disk).fs.mounted = true ↔
        Mountable disk ∨ 2 ≤ (formatBlocks dev 0).toNat) ∧
      ((Machine.boot dev disk).fs.mounted = true →
        (Machine.boot dev disk).fs.toVolume.OnDisk) ∧
      (Mountable disk → (Machine.boot dev disk).fs.disk = disk) ∧
      (Machine.boot dev (Machine.boot dev disk).fs.disk).fs.toVolume =
        (Machine.boot dev disk).fs.toVolume := by
  have h := Machine.boot_started hp disk
  refine ⟨h.phase, h.mounted, h.onDisk, fun hm => h.kept (.inl hm), ?_⟩
  have hsecond := Machine.boot_started hp (Machine.boot dev disk).fs.disk
  cases hmounted : (Machine.boot dev disk).fs.mounted with
  | false => rw [h.kept (.inr hmounted)]
  | true =>
      have hon := h.onDisk hmounted
      have hm : Mountable (Machine.boot dev disk).fs.disk := hon.1.mountable
      exact (hsecond.onDisk (hsecond.mounted.mpr (.inl hm))).unique hon (hsecond.kept (.inl hm))

/-- A disk of zeros becomes a volume. -/
theorem boot_mounts_zeros : (Machine.boot .working fun _ => Bytes.zero).fs.mounted = true :=
  (boot_mounts Device.working_perfect fun _ => Bytes.zero).2.1.mpr (.inr (by decide))

/-! ## Three lines -/

namespace Machine

theorem check_phase (hp : dev.Perfect) (h : Keyed hash stray unflushed m.fs.toVolume)
    (line : CStr) (accepted denied : Phase) : (m.check dev line accepted denied).phase =
      if fsHashPassword line = hash then accepted else denied := by
  have hread : (fsReadPasswd dev m.fs).1 = .ok hash :=
    (wp_outcome (fsReadPasswd_returns hp h.toReady)).trans (passwdOutcome_eq h.key)
  rw [check, storedHash, Prog.run_eq hread]

/-- A typed line at the login: the password, one of two wrong ones, or the third. -/
theorem step_login (hp : dev.Perfect) (h : Keyed hash stray unflushed m.fs.toVolume)
    {attempts : Nat} (hphase : m.phase = .login attempts) (line : CStr) :
    (m.step dev test (typed line)).fs.toVolume = m.fs.toVolume ∧
      (m.step dev test (typed line)).phase = if fsHashPassword line = hash then .prompt
        else if attempts + 1 < 3 then .login (attempts + 1) else .off := by
  have hgate : Device.Perfect { dev with readFails := fun _ _ => false } :=
    ⟨fun _ _ => rfl, hp.writes⟩
  simp only [step, typed, readLine, hphase]
  exact ⟨check_volume _ _ _, check_phase hgate h _ _ _⟩

theorem run_off (hphase : m.phase = .off) (lines : List CStr) :
    m.run dev test (lines.map typed) = m := by
  induction lines with
  | nil => rfl
  | cons line lines ih =>
      have hstep : m.step dev test (typed line) = m := by
        simp only [step, typed, readLine, hphase]
      rw [List.map_cons, run, List.foldl_cons, hstep]
      exact ih

theorem run_login (hp : dev.Perfect) (h : Keyed hash stray unflushed m.fs.toVolume)
    {attempts : Nat} (hphase : m.phase = .login attempts) (hattempts : attempts < 3)
    {wrong : List CStr} (hwrong : ∀ line ∈ wrong, fsHashPassword line ≠ hash) {line : CStr}
    (hline : fsHashPassword line = hash) :
    (m.run dev test ((wrong ++ [line]).map typed)).phase =
      if attempts + wrong.length < 3 then .prompt else .off := by
  induction wrong generalizing m attempts with
  | nil =>
      change (m.step dev test (typed line)).phase = _
      rw [(step_login hp h hphase line).2, if_pos hline, if_pos (by simpa using hattempts)]
  | cons first wrong ih =>
      have hstep := @step_login dev test _ _ m hash hp h attempts hphase first
      obtain ⟨hvolume, hnext⟩ := hstep
      rw [if_neg (hwrong first (by simp))] at hnext
      change ((m.step dev test (typed first)).run dev test ((wrong ++ [line]).map typed)).phase = _
      by_cases hlast : attempts + 1 < 3
      · rw [if_pos hlast] at hnext
        rw [ih (hvolume.symm ▸ h) hnext hlast fun w hw => hwrong w (by simp [hw])]
        simp only [List.length_cons]
        congr 1
        exact propext ⟨fun h => by omega, fun h => by omega⟩
      · rw [if_neg hlast] at hnext
        rw [run_off hnext, hnext, if_neg]
        simp only [List.length_cons]
        omega

theorem Installed.keyed (hp : dev.Perfect) (h : m.Installed dev) :
    ∃ stray unflushed, Keyed (fsHashPassword defaultPassword) stray unflushed m.fs.toVolume := by
  obtain ⟨totalBlocks, inodeCount, s, s', hformat, hinit⟩ := h
  have hkey : Keyed (fsHashPassword defaultPassword) (fun _ => False) (fun _ => False)
      s'.toVolume :=
    ⟨fsFormat_resting hp hformat, by rw [fsFormat_files hp hformat, if_pos rfl]⟩
  rcases wp_run (fsInit_spec hp hkey.headed rfl) hinit with ⟨_, -, hv⟩ | ⟨-, hno⟩ | ⟨-, hno⟩
  · rw [hv]
    exact ⟨_, _, hkey.reload⟩
  · exact hno.elim
  · exact hno.elim

end Machine

/-- How the system comes by its password: the kernel made the volume when it started, or it was
typed twice and stored. -/
inductive Kernel.Secured (dev : Device) (host : HeapHost) (test : FsM Unit) :
    Kernel → CStr → Prop
  | made {disk : UInt32 → Block} : ¬ Mountable disk → 5 ≤ (formatBlocks dev 0).toNat →
      Secured dev host test (boot dev host disk) defaultPassword
  | set {k₀ k₁ k₂ : Kernel} {text : CStr} {readFails : Fs → UInt32 → Bool} :
      k₀.Installed dev host → k₀.Runs dev host test Whole k₁ → k₁.machine.SetsPasswd dev text →
      k₁.step dev host test (.line readFails text) = some k₂ → Secured dev host test k₂ text

theorem Kernel.Secured.keyed (hp : dev.Perfect) {text : CStr} (h : k.Secured dev host test text) :
    (∃ stray unflushed, Keyed (fsHashPassword text) stray unflushed k.machine.fs.toVolume) ∧
      k.Sound host.area := by
  cases h with
  | made hm hroom =>
      exact ⟨((Machine.boot_started hp _).formatted hm hroom).keyed hp, boot_sound _⟩
  | @set k₀ k₁ _ _ readFails hinstalled hbefore hset hstep =>
      obtain ⟨hruns, hsound⟩ := hbefore.machine hinstalled.2
      obtain ⟨stray, unflushed, hrest⟩ := (upheld_resting hp).runs (hinstalled.1.resting hp) hruns
      obtain ⟨hmachine, hsound'⟩ := step_spec hsound hstep
      rw [hmachine]
      exact ⟨hrest.keyed hp (hset.stored readFails), hsound'⟩

def leaveShell : List Event := [typed defaultPassword, typed writeLine, typed exitLine]

/-- The machine that a file was written on, back at the login. -/
def Machine.left : Machine :=
  (Machine.boot .working fun _ => Bytes.zero).run .working (pure ()) leaveShell

end SevenOS
