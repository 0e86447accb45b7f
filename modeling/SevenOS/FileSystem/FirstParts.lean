import SevenOS.FileSystem.Files
import SevenOS.FileSystem.Exports

/-! # The first component of a path

Every operation that splits its path cuts the first component to 29 characters
before it looks it up. A component that fits is found under its own name only; a
longer one is found where the directory of the shorter name is.
-/

namespace SevenOS

open Prog

variable {dev : Device} {stray : InodeNo → Prop} {v : Volume} {s : Fs} {path dirname rest : CStr}

/-- `path` up to its first `/`. -/
def firstPart (path : CStr) : CStr := path.take (pathSep path)

/-- The operations that split a path at its first `/`. -/
def Export.Splits : Export → Prop
  | .isDir _ => True
  | .readPath _ _ => True
  | .change (.create _) => False
  | .change (.writePasswd _) => False
  | .change _ => True
  | _ => False

/-- The first component of `path` is looked up by its exact name. -/
structure Fs.FindsExactly (dev : Device) (s : Fs) (path : CStr) : Prop where
  entry : ∀ dirname rest i, splitPath path = some (dirname, rest) →
    findDirEntry dirname (s.blockOf 0) s.inodes inodeDir = some i →
      entryName (s.blockOf 0) i = firstPart path
  through : ∀ call : Export, call.Splits → path ∈ call.paths → (call.run dev s).1 = .ok () →
    ∃ i, entryUsed (s.blockOf 0) i = true ∧ entryName (s.blockOf 0) i = firstPart path
  refused : 30 ≤ (firstPart path).length → ∀ call : Export, call.Splits → path ∈ call.paths →
    (call.run dev s).1 ≠ .ok ()

/-- The directory that the cut first component names. -/
def Volume.CutDir (v : Volume) (path : CStr) : Prop :=
  30 ≤ (firstPart path).length ∧ (v.findIn 0 ((firstPart path).take 29) inodeDir).isSome

theorem splitPath_dirname (h : splitPath path = some (dirname, rest)) :
    dirname = (firstPart path).take 29 := by
  unfold splitPath at h
  split at h
  · cases h
  · cases h
    apply CStr.ext
    simp [firstPart, CStr.take, List.take_take, Nat.min_comm]

theorem Volume.Parent.hit {d : InodeNo} {name : CStr} (h : v.Parent path d name)
    (hsplit : splitPath path = some (dirname, rest)) :
    ∃ i d, Hit (v.dirAt 0) v.inodes dirname inodeDir i d := by
  rw [Volume.Parent, hsplit] at h
  obtain ⟨⟨i, hit⟩, -⟩ := h
  exact ⟨i, d, hit⟩

theorem Inv.resolve_hit (h : Inv stray v) {type : UInt8} {k : InodeNo} (ht : type ≠ 0)
    (hk : v.resolve path type = some k) (hsplit : splitPath path = some (dirname, rest)) :
    ∃ i d, Hit (v.dirAt 0) v.inodes dirname inodeDir i d := by
  obtain ⟨d, name, j, hparent, -⟩ := (h.resolve_some ht).mp hk
  exact hparent.hit hsplit

/-- A change that succeeds has found the directory of each of its paths. -/
theorem Done.hit {call : Call} {v' : Volume} (hdone : Done stray v call v')
    (hcall : (Export.change call).Splits) (hpath : path ∈ call.paths)
    (hsplit : splitPath path = some (dirname, rest)) :
    ∃ i d, Hit (v.dirAt 0) v.inodes dirname inodeDir i d := by
  cases call with
  | create name => exact hcall.elim
  | writePasswd hash => exact hcall.elim
  | mkdirPath p =>
      obtain rfl := List.mem_singleton.mp hpath
      obtain ⟨d, name, hparent, -⟩ := hdone
      exact hparent.hit hsplit
  | writePath p data =>
      obtain rfl := List.mem_singleton.mp hpath
      obtain ⟨d, name, hparent, -⟩ := hdone
      exact hparent.hit hsplit
  | removePath p =>
      obtain rfl := List.mem_singleton.mp hpath
      obtain ⟨d, name, j, k, type, v₁, hparent, -⟩ := hdone
      exact hparent.hit hsplit
  | removePathRecursive p =>
      obtain rfl := List.mem_singleton.mp hpath
      obtain ⟨d, name, j, k, type, v₁, hparent, -⟩ := hdone
      exact hparent.hit hsplit
  | copyPath src dst =>
      obtain ⟨k, d, name, ⟨d₀, n₀, j₀, hparent, -⟩, htarget, -⟩ := hdone
      rcases List.mem_pair.mp hpath with rfl | rfl
      · exact hparent.hit hsplit
      · rw [Volume.CopyTarget, hsplit] at htarget
        obtain ⟨⟨i, hit⟩, -⟩ := htarget
        exact ⟨i, d, hit⟩
  | rename src dst =>
      have key : ∀ {d d' srcName name isDir}, v.Parent src d srcName →
          v.RenameTarget srcName dst d' name isDir →
            ∃ i d, Hit (v.dirAt 0) v.inodes dirname inodeDir i d := by
        intro d d' srcName name isDir hparent htarget
        rcases List.mem_pair.mp hpath with rfl | rfl
        · exact hparent.hit hsplit
        · rw [Volume.RenameTarget, hsplit] at htarget
          obtain ⟨⟨i, hit⟩, -⟩ := htarget
          exact ⟨i, d', hit⟩
      rcases hdone with ⟨-, d, srcName, j, k, type, d', name, isDir, hparent, -, htarget, -⟩ |
        ⟨d, srcName, j, k, type, d', name, isDir, hparent, -, htarget, -⟩
      · exact key hparent htarget
      · exact key hparent htarget

/-- An operation that succeeds has found the directory of each of its paths. -/
theorem Ready.hit (hp : dev.Perfect) (h : Ready stray s.toVolume) {call : Export}
    (hcall : call.Splits) (hok : (call.run dev s).1 = .ok ()) (hpath : path ∈ call.paths)
    (hsplit : splitPath path = some (dirname, rest)) :
    ∃ i d, Hit (s.dirAt 0) s.inodes dirname inodeDir i d := by
  cases call with
  | isDir p =>
      obtain rfl := List.mem_singleton.mp hpath
      change (fsIsDir dev path s).1 = _ at hok
      rw [wp_outcome (fsIsDir_returns hp h path)] at hok
      cases hk : s.toVolume.resolve path inodeDir with
      | none => simp [hk] at hok
      | some k => exact h.inv.resolve_hit (by decide) hk hsplit
  | readPath p maxlen =>
      obtain rfl := List.mem_singleton.mp hpath
      cases hk : s.toVolume.resolve path inodeFile with
      | none =>
          obtain ⟨bytes, hbytes⟩ := Export.forget_ok.mp hok
          rw [fsReadPath_files hp h, Volume.files, hk] at hbytes
          cases hbytes
      | some k => exact h.inv.resolve_hit (by decide) hk hsplit
  | change call =>
      by_cases hfit : call.Fits s.toVolume
      · rcases Call.run_cases hp h.inv hfit (run_eq hok) with ⟨-, hdone⟩ | ⟨ho, -⟩
        · exact hdone.hit hcall hpath hsplit
        · cases ho
      · -- a name that does not fit is only written into a directory that was found
        cases call with
        | writePath p data =>
            obtain rfl := List.mem_singleton.mp hpath
            obtain ⟨dirname', rest', i, d, hsplit', -, hit, -⟩ := not_not.mp hfit
            rw [hsplit] at hsplit'
            cases hsplit'
            exact ⟨i, d, hit⟩
        | _ => exact (hfit trivial).elim
  | _ => exact hcall.elim

theorem session_findsExactly (hp : dev.Perfect)
    (h : Session dev (fun _ call _ => call.Ordinary) s) (hslash : (splitPath path).isSome) :
    s.FindsExactly dev path ↔ ¬ s.toVolume.CutDir path := by
  obtain ⟨stray, hready⟩ := h.ready hp fun s call _ hallow => hallow.fits s.toVolume
  obtain ⟨⟨dirname, rest⟩, hsplit⟩ := Option.isSome_iff_exists.mp hslash
  have hinv := hready.inv
  have hroot := hinv.linked.root
  have hcut := splitPath_dirname hsplit
  -- the entry that is found is called `dirname`
  have hname : ∀ {i d}, Hit (s.dirAt 0) s.inodes dirname inodeDir i d →
      entryUsed (s.blockOf 0) i = true ∧ entryName (s.blockOf 0) i = dirname := by
    intro i d hit
    obtain ⟨hused, heq, -⟩ := listing_eq_some.mp hit.entry
    exact ⟨hused, heq⟩
  constructor
  · rintro hexact ⟨hlong, hfound⟩
    rw [← hcut] at hfound
    obtain ⟨d, hd⟩ := Option.isSome_iff_exists.mp hfound
    obtain ⟨i, hfind, -⟩ := Option.bind_eq_some_iff.mp hd
    obtain ⟨d', hit⟩ := findDirEntry_some (by decide) hfind
    have heq := hexact.entry dirname rest i hsplit hfind
    rw [(hname hit).2, hcut] at heq
    have hlen := congrArg CStr.length heq
    simp only [CStr.length, CStr.take, List.length_take] at hlen hlong
    omega
  · intro hno
    have exact_ : ∀ {i d}, Hit (s.dirAt 0) s.inodes dirname inodeDir i d →
        (firstPart path).length ≤ 29 ∧ dirname = firstPart path := by
      intro i d hit
      have hshort : (firstPart path).length ≤ 29 := by
        by_contra hlong
        refine hno ⟨by omega, ?_⟩
        rw [← hcut, (hinv.findIn_some hroot (by decide)).mpr ⟨i, hit⟩]
        rfl
      refine ⟨hshort, ?_⟩
      rw [hcut]
      apply CStr.ext
      exact List.take_of_length_le hshort
    refine ⟨?_, ?_, ?_⟩
    · intro dirname' rest' i hsplit' hfind
      rw [hsplit] at hsplit'
      cases hsplit'
      obtain ⟨d, hit⟩ := findDirEntry_some (by decide) hfind
      rw [(hname hit).2, (exact_ hit).2]
    · intro call hcall hpath hok
      obtain ⟨i, d, hit⟩ := hready.hit hp hcall hok hpath hsplit
      exact ⟨i, (hname hit).1, (hname hit).2.trans (exact_ hit).2⟩
    · intro hlong call hcall hpath hok
      obtain ⟨i, d, hit⟩ := hready.hit hp hcall hok hpath hsplit
      have := (exact_ hit).1
      omega

/-- As many times "a". -/
def runOfA (n : Nat) : CStr := ⟨List.replicate n 97, by simp⟩

/-- A directory whose name fills its entry, with a file `b`. -/
def fullName : List Call :=
  [.mkdirPath (runOfA 29), .writePath (joinPath (runOfA 29) nameB) nameB]

/-- The file is found under the exact name of its directory. -/
theorem session_findsExactly_fits :
    (Fs.started .working (fun _ => Bytes.zero) 0 fullName).FindsExactly .working
        (joinPath (runOfA 29) nameB) ↔
      ¬ (Fs.started .working (fun _ => Bytes.zero) 0 fullName).toVolume.CutDir
        (joinPath (runOfA 29) nameB) := by
  have hsession : Session .working (fun _ call _ => call.Ordinary)
      (Fs.started .working (fun _ => Bytes.zero) 0 fullName) :=
    .started (by decide +kernel) fun call hcall _ _ => by revert call; decide
  exact session_findsExactly Device.working_perfect hsession (by decide)

/-- A removal aimed at a name of thirty characters hits the directory of the first
twenty-nine. -/
theorem not_session_findsExactly :
    ¬ ∀ dev s path, dev.Perfect → Session dev (fun _ call _ => call.Ordinary) s →
      (splitPath path).isSome → s.FindsExactly dev path := by
  intro h
  have hsession : Session .working (fun _ call _ => call.Ordinary)
      (Fs.started .working (fun _ => Bytes.zero) 0 fullName) :=
    .started (by decide +kernel) fun call hcall _ _ => by revert call; decide
  have hexact := h _ _ (joinPath (runOfA 30) nameB) Device.working_perfect hsession (by decide)
  have hremoved : ((Export.change (.removePath (joinPath (runOfA 30) nameB))).run .working
      (Fs.started .working (fun _ => Bytes.zero) 0 fullName)).1 = .ok () := by decide +kernel
  exact hexact.refused (by decide) (.change (.removePath (joinPath (runOfA 30) nameB))) trivial
    (List.mem_singleton.mpr rfl) hremoved

end SevenOS
