import SevenOS.FileSystem.Remount

/-! # Refused calls

On a disk that does not fail a refused call changes nothing, but for a write of
a system file that takes an inode and a block and then finds no place for them.
-/

namespace SevenOS

open Prog

variable {dev : Device} {stray : InodeNo → Prop} {v v' : Volume} {s : Fs}

/-- Bitmap, inode table and the block of every used inode are as they were. -/
structure Unchanged (v v' : Volume) : Prop where
  bitmap : v'.bitmap = v.bitmap
  inodes : v'.inodes = v.inodes
  blocks : ∀ i, (v.inodes i).used ≠ 0 → v'.blockOf i = v.blockOf i

theorem Unchanged.refl (v : Volume) : Unchanged v v := ⟨rfl, rfl, fun _ _ => rfl⟩

/-- The calls that keep something when they are refused. -/
def Call.Leaks (v : Volume) : Call → Prop
  | .writePasswd _ => SysLeaks v passwdName
  | _ => False

theorem SysLeft.changed (h : SysLeft stray v v') : ¬ Unchanged v v' := by
  intro hsame
  rcases h with ⟨k, ino, hc, -, -, -, -, rfl⟩ | ⟨k, hmiss, ⟨⟨i, hit⟩, -⟩ | ⟨j, b, -, -, hc, -, -, rfl⟩⟩
  · refine hc.unused ?_
    rw [Live, ← hsame.inodes]
    simpa [Volume.take] using hc.used
  · exact hmiss i k hit
  · refine hc.unused ?_
    rw [Live, ← hsame.inodes, Inv.inodes_create_new]
    exact hc.used

theorem Left.unchanged_iff {call : Call} (h : Left stray v call v') :
    Unchanged v v' ↔ ¬ call.Leaks v := by
  cases call with
  | writePasswd hash =>
      rcases h with ⟨hno, rfl⟩ | ⟨hleaks, hleft⟩
      · exact ⟨fun _ => hno, fun _ => .refl _⟩
      · exact ⟨fun hsame => (hleft.changed hsame).elim, fun hno => (hno hleaks).elim⟩
  | _ =>
      cases h
      exact ⟨fun _ => id, fun _ => .refl _⟩

theorem session_refused (hp : dev.Perfect) (h : Session dev (fun _ call _ => call.Ordinary) s)
    {call : Call} (hcall : call.Ordinary) {s' : Fs} (hrun : call.run dev s = (.refused, s')) :
    Unchanged s.toVolume s'.toVolume ↔ ¬ call.Leaks s.toVolume := by
  obtain ⟨stray, hready⟩ := h.ready hp fun s call _ hallow => hallow.fits s.toVolume
  rcases Call.run_cases hp hready.inv (hcall.fits _) hrun with ⟨ho, -⟩ | ⟨-, hleft⟩
  · cases ho
  · exact hleft.unchanged_iff

/-- The directory is there already. -/
theorem session_refused_mkdir :
    Unchanged (Fs.started .working (fun _ => Bytes.zero) 0 [.mkdirPath nameA]).toVolume
      ((Call.mkdirPath nameA).run .working
        (Fs.started .working (fun _ => Bytes.zero) 0 [.mkdirPath nameA])).2.toVolume :=
  (session_refused Device.working_perfect
    (.started (by decide +kernel) fun call hcall _ _ => by revert call; decide)
    (show (Call.mkdirPath nameA).Ordinary by decide) (run_eq (by decide +kernel))).mpr id

/-- The last inode that `fs_write_passwd` takes for `sys` is not given back. -/
theorem not_session_refused :
    ¬ ∀ dev s, dev.Perfect → Session dev (fun _ call _ => call.Ordinary) s →
      ∀ call s', Call.Ordinary call → call.run dev s = (.refused, s') →
        Unchanged s.toVolume s'.toVolume := by
  intro h
  have hsame := h .working (Fs.started .working (fun _ => Bytes.zero) 5
      [.removePathRecursive sysName, .create nameA, .create nameB]) Device.working_perfect
    (.started (by decide +kernel) fun call hcall _ _ => by revert call; decide)
    (.writePasswd 7) _ (by decide) (run_eq (by decide +kernel))
  have hused := congrArg Inode.used (congrFun hsame.inodes 3)
  revert hused
  decide +kernel

end SevenOS
