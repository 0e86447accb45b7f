import SevenOS.FileSystem.Tree

/-! # Recursive removal

The removal of a directory takes the inodes that its entries lead to, their
blocks and nothing else. Paths are cut at their first `/` only, so that below a
directory `b` of `a` nothing can be named any more, but for files whose own
name in `a` begins with `b/`.
-/

namespace SevenOS

open Prog

variable {dev : Device} {stray : InodeNo → Prop} {v v' : Volume} {s : Fs}

/-- Inode `k` and all that its entries lead to are gone, with their blocks and with slot
`j` of directory `d`, and everything else is as it was. -/
structure TreeFreed (v : Volume) (d : InodeNo) (j : Slot) (k : InodeNo) (v' : Volume) : Prop where
  inodes : ∀ i, (v.inodes i).used ≠ 0 ∧ (v'.inodes i).used = 0 ↔ Below v.link k i
  blocks : ∀ b, b < 32768 → (v.bitmap.testBit b = true ∧ v'.bitmap.testBit b = false ↔
    ∃ i, Below v.link k i ∧ (v.inodes i).direct0.toNat = b)
  zeros : ∀ i, Below v.link k i → v'.disk (v.sectorOf i) = Bytes.zero
  entry : entryUsed (v'.blockOf d) j = false
  otherInodes : ∀ i, ¬ Below v.link k i → v'.inodes i = v.inodes i
  otherBits : ∀ b, b < 32768 → (∀ i, Below v.link k i → (v.inodes i).direct0.toNat ≠ b) →
    v'.bitmap.testBit b = v.bitmap.testBit b
  otherEntries : ∀ i, i ≠ j → dirEntry (v'.blockOf d) i = dirEntry (v.blockOf d) i
  otherBlocks : ∀ b, b.toNat < 32768 → b ≠ (v.inodes d).direct0 →
    (∀ i, Below v.link k i → b ≠ (v.inodes i).direct0) → v'.data b = v.data b

/-! ## What hangs below an entry -/

theorem Inv.below_link (h : Inv stray v) {k x : InodeNo} (hk : Live v.inodes k) (hks : ¬ stray k) :
    Below v.link k x ↔ Below (v.edge stray) k x := by
  constructor
  · rintro ⟨ls, w⟩
    suffices main : (Live v.inodes x ∧ ¬ stray x) ∧ Below (v.edge stray) k x from main.2
    refine w.reach_induction (motive := fun x =>
      (Live v.inodes x ∧ ¬ stray x) ∧ Below (v.edge stray) k x) ⟨⟨hk, hks⟩, below_refl k⟩ ?_
    rintro b j c ⟨⟨-, hbs⟩, hb⟩ e
    obtain ⟨⟨hdir, -⟩, name, he⟩ := link_iff.mp e
    have hkept : Kept stray v.inodes b := ⟨hdir, hbs⟩
    exact ⟨(h.linked.named hkept he).2, hb.trans_edge ⟨hkept, name, he⟩⟩
  · intro hx
    refine hx.within ?_
    rintro b j c - ⟨hb, name, he⟩
    exact link_iff.mpr ⟨⟨hb.1, id⟩, name, he⟩

theorem dirEntry_clearEntry (b : Block) {i j : Slot} (hij : i ≠ j) :
    dirEntry (clearEntry b j) i = dirEntry b i := by
  have outside : ∀ t, t < 32 → (clearEntry b j).at_ (32 * i.val + t) = b.at_ (32 * i.val + t) := by
    intro t ht
    have hi := i.isLt
    have hne : i.val ≠ j.val := fun h => hij (Fin.ext h)
    rw [clearEntry_at _ _ (by omega), if_neg (by omega)]
  refine DirEntry.ext ?_ (outside 1 (by decide)) (funext fun t => ?_)
  · exact outside 0 (by decide)
  · have ht := t.isLt
    have := outside (2 + t.val) (by omega)
    simpa only [dirEntry, Nat.add_assoc] using this

theorem entryUsed_clearEntry (b : Block) (j : Slot) : entryUsed (clearEntry b j) j = false := by
  have hj := j.isLt
  rw [entryUsed, clearEntry_at _ _ (by omega), if_pos (by omega)]
  rfl

theorem Inv.removeAt_det (h : Inv stray v) {path : CStr} {d d' k k' : InodeNo} {j j' : Slot}
    (hat : v.RemoveAt path d j k) (hat' : v.RemoveAt path d' j' k') : d = d' ∧ j = j' ∧ k = k' := by
  obtain ⟨name, type, hparent, hit, htype⟩ := hat
  obtain ⟨name', type', hparent', hit', htype'⟩ := hat'
  obtain ⟨rfl, rfl⟩ := h.parent_det hparent hparent'
  have heq : type = type' := by
    rcases htype with rfl | ⟨rfl, hno⟩ <;> rcases htype' with rfl | ⟨rfl, hno'⟩
    · rfl
    · exact (hno' _ _ hit).elim
    · exact (hno _ _ hit').elim
    · rfl
  subst heq
  obtain ⟨hj, hk⟩ := h.hit_unique (h.parent_kept hparent) hit hit'
  exact ⟨rfl, hj, hk⟩

/-- A removal and the flush after it free the tree below the entry. -/
theorem Inv.treeFreed (h : Inv stray v) {path : CStr} {d k : InodeNo} {j : Slot} {v₁ : Volume}
    (hat : v.RemoveAt path d j k) (hr : v.Removed d j (Below (v.edge stray) k) v₁) :
    TreeFreed v d j k v₁.flush := by
  obtain ⟨name, type, hparent, ⟨hit, -⟩⟩ := hat
  have hd := h.parent_kept hparent
  obtain ⟨ws, hw⟩ := h.parent_walk hparent
  obtain ⟨-, hk, hks⟩ := h.linked.named hd hit.entry
  have hbelow := fun {x} => h.below_link hk hks (x := x)
  have hlive := fun {i} (hi : Below v.link k i) => (h.below_live hk hks (hbelow.mp hi)).1
  have h₁ := h.removed_below hw hd hit.entry hr
  -- the flush stays off the data blocks
  have hdata : ∀ {b : UInt32}, b.toNat < 32768 → v₁.flush.data b = v₁.data b :=
    fun hb => h₁.layout.data_flush hb
  have hsector : ∀ b, v₁.dataSector b = v.dataSector b := fun b => by
    simp only [Volume.dataSector, hr.sb]
  have hdself : ¬ Below (v.edge stray) k d := by
    rintro ⟨ls, w⟩
    exact h.rooted.below_irrefl hw ⟨hd, name, hit.entry⟩ w
  have hblock : v₁.flush.blockOf d = SevenOS.clearEntry (v.blockOf d) j := by
    have hino : (v₁.flush.inodes d).direct0 = (v.inodes d).direct0 :=
      congrArg Inode.direct0 (hr.inodes d hdself)
    rw [Volume.blockOf, hino, hdata (h.alloc.blockBound hd.1.1), hr.parent]
  refine ⟨fun i => ?_, fun b hb => ?_, fun i hi => ?_, ?_, fun i hi => ?_, fun b hb hout => ?_,
    fun i hi => ?_, fun b hb hbd hout => ?_⟩
  · constructor
    · rintro ⟨hused, hunused⟩
      by_contra hout
      have hsame : v₁.inodes i = v.inodes i := hr.inodes i fun hi => hout (hbelow.mpr hi)
      rw [Volume.inodes_flush, hsame] at hunused
      exact hused hunused
    · intro hi
      refine ⟨hlive hi, ?_⟩
      rw [Volume.inodes_flush, hr.zeroed i (hbelow.mp hi)]
      rfl
  · have hbit := hr.bits b hb
    rw [Volume.bitmap_flush]
    constructor
    · rintro ⟨hset, hclear⟩
      by_contra hnone
      refine absurd (hbit.mpr ⟨hset, ?_⟩) (by simp [hclear])
      rintro ⟨i, hi, hib⟩
      exact hnone ⟨i, hbelow.mpr hi, hib⟩
    · rintro ⟨i, hi, hib⟩
      refine ⟨(h.alloc.bits b hb).mpr ⟨i, hlive hi, hib⟩, ?_⟩
      rw [Bool.eq_false_iff]
      exact fun hset => (hbit.mp hset).2 ⟨i, hbelow.mp hi, hib⟩
  · have hzero := hr.zeros i (hbelow.mp hi)
    have hsame := hdata (h.alloc.blockBound (hlive hi))
    simp only [Volume.data, hsector] at hsame
    have hflush : v₁.flush.dataSector (v.inodes i).direct0 = v.sectorOf i := hsector _
    rw [hflush] at hsame
    exact hsame.trans hzero
  · rw [hblock]
    exact entryUsed_clearEntry _ _
  · exact hr.inodes i fun hi' => hi (hbelow.mpr hi')
  · rw [Volume.bitmap_flush, Bool.eq_iff_iff, hr.bits b hb]
    refine ⟨fun hset => hset.1, fun hset => ⟨hset, ?_⟩⟩
    rintro ⟨i, hi, hib⟩
    exact hout i (hbelow.mpr hi) hib
  · rw [hblock]
    exact dirEntry_clearEntry _ hi
  · rw [hdata hb, Volume.data, hsector]
    refine hr.disk _ (fun heq => hbd (Volume.dataSector_inj.mp heq)) fun i hi heq => ?_
    exact hout i (hbelow.mpr hi) (Volume.dataSector_inj.mp heq)

/-! ## Removals in a session -/

theorem session_removedTree (hp : dev.Perfect)
    (h : Session dev (fun _ call _ => call.Ordinary) s) (path : CStr) :
    (fsRemovePathRecursive dev path s).1 ≠ .diverged ∧
      ∀ d j k, s.toVolume.RemoveAt path d j k →
        (fsRemovePathRecursive dev path s).1 = .ok () ∧
          TreeFreed s.toVolume d j k (fsRemovePathRecursive dev path s).2.toVolume := by
  obtain ⟨stray, hready⟩ := h.ready hp fun s call _ hallow => hallow.fits s.toVolume
  generalize hrun : fsRemovePathRecursive dev path s = r
  obtain ⟨o, s'⟩ := r
  rcases wp_run (fsRemovePathRecursive_tree hp hready.inv path) hrun with
    ⟨_, rfl, d, j, k, v₁, hat, hr, hv⟩ | ⟨rfl, -, hmiss⟩ | ⟨-, hno⟩
  · refine ⟨by simp, fun d' j' k' hat' => ⟨rfl, ?_⟩⟩
    obtain ⟨rfl, rfl, rfl⟩ := hready.inv.removeAt_det hat hat'
    rw [hv]
    exact hready.inv.treeFreed hat hr
  · exact ⟨by simp, fun d j k hat => (hmiss hready.mounted d j k hat).elim⟩
  · exact hno.elim

/-- A directory `a` with a file `b`, inodes 4 and 5, is removed. -/
theorem session_removedTree_dir :
    (fsRemovePathRecursive .working nameA (.started .working (fun _ => Bytes.zero) 0
        [.mkdirPath nameA, .writePath pathAB nameB])).1 = .ok () ∧
      TreeFreed (Fs.started .working (fun _ => Bytes.zero) 0
          [.mkdirPath nameA, .writePath pathAB nameB]).toVolume 0 1 4
        (fsRemovePathRecursive .working nameA (.started .working (fun _ => Bytes.zero) 0
          [.mkdirPath nameA, .writePath pathAB nameB])).2.toVolume := by
  have hsession : Session .working (fun _ call _ => call.Ordinary) (.started .working
      (fun _ => Bytes.zero) 0 [.mkdirPath nameA, .writePath pathAB nameB]) :=
    .started (by decide +kernel) fun call hcall _ _ => by revert call; decide
  have hat : (Fs.started .working (fun _ => Bytes.zero) 0
      [.mkdirPath nameA, .writePath pathAB nameB]).RemoveAt nameA 0 1 4 :=
    ⟨nameA, inodeDir, .ofRoot (by decide), ⟨by decide +kernel, by decide +kernel,
      by decide +kernel⟩, .inl rfl⟩
  exact (session_removedTree Device.working_perfect hsession nameA).2 0 1 4 hat

/-! ## Paths below a removed directory -/

/-- The first component and what follows the first `/` fit into a name. -/
def Loose (path : CStr) : Prop :=
  match splitPath path with
  | none => path.length ≤ 29
  | some (_, rest) => pathSep path ≤ 29 ∧ rest.length ≤ 29

instance (path : CStr) : Decidable (Loose path) :=
  match h : splitPath path with
  | none => decidable_of_iff (path.length ≤ 29) (by rw [Loose, h])
  | some (_, rest) =>
      decidable_of_iff (pathSep path ≤ 29 ∧ rest.length ≤ 29) (by rw [Loose, h])

def Call.Loose : Call → Prop
  | .create _ => False
  | .writePasswd _ => False
  | call => ∀ path ∈ call.paths, SevenOS.Loose path

instance (call : Call) : Decidable call.Loose :=
  match call with
  | .create _ | .writePasswd _ => inferInstanceAs (Decidable False)
  | .mkdirPath _ | .writePath .. | .copyPath .. | .rename .. | .removePath _
  | .removePathRecursive _ => inferInstanceAs (Decidable (∀ path ∈ _, SevenOS.Loose path))

theorem Call.Loose.fits {call : Call} (h : call.Loose) (v : Volume) : call.Fits v := by
  cases call with
  | writePath path data =>
      rintro ⟨dirname, rest, i, d, hsplit, hlong, -⟩
      have hpath := h path (by simp [Call.paths])
      rw [SevenOS.Loose, hsplit] at hpath
      have := hpath.2
      omega
  | _ => trivial

theorem slash_notMem {path : CStr} (h : splitPath path = none) : slash ∉ path.chars := by
  have hlen : pathSep path = path.length := by
    by_contra hne
    rw [splitPath, if_neg hne] at h
    cases h
  have heq := (List.takeWhile_prefix (fun c => decide (c ≠ slash))).eq_of_length hlen
  intro hmem
  rw [← heq] at hmem
  simpa using List.mem_takeWhile_imp hmem

/-- What is added to a path with a `/` goes to its last part. -/
theorem splitPath_joinPath {path dirname name : CStr} (h : splitPath path = some (dirname, name))
    (rest : CStr) : splitPath (joinPath path rest) = some (dirname, joinPath name rest) := by
  have hne : pathSep path ≠ path.length := by
    intro heq
    rw [splitPath, if_pos heq] at h
    cases h
  have hlt : pathSep path < path.chars.length :=
    Nat.lt_of_le_of_ne (List.takeWhile_prefix _).length_le hne
  rw [splitPath, if_neg hne] at h
  cases h
  have hsep : pathSep (joinPath path rest) = pathSep path := by
    have hne' : (path.chars.takeWhile (fun c => decide (c ≠ slash))).length ≠ path.chars.length := hne
    rw [pathSep, joinPath_chars, List.takeWhile_append, if_neg hne']
    rfl
  have hlong : pathSep path ≠ (joinPath path rest).length := by
    rw [CStr.length, joinPath_chars, List.length_append]
    omega
  rw [splitPath, hsep, if_neg hlong]
  have hdir : (joinPath path rest).take (min (pathSep path) 29) =
      path.take (min (pathSep path) 29) := by
    apply CStr.ext
    simp only [CStr.take, joinPath_chars]
    exact List.take_append_of_le_length (by omega)
  have hname : (joinPath path rest).drop (pathSep path + 1) =
      joinPath (path.drop (pathSep path + 1)) rest := by
    apply CStr.ext
    simp only [CStr.drop, joinPath_chars]
    exact List.drop_append_of_le_length (by omega)
  rw [hdir, hname]

/-- In the directory of `path` a file has a name that begins with the last part of `path`
and a `/`. -/
def Volume.Shadowed (v : Volume) (path : CStr) : Prop :=
  ∃ dirname name d rest, splitPath path = some (dirname, name) ∧
    v.findIn 0 dirname inodeDir = some d ∧ (v.findIn d (joinPath name rest) inodeFile).isSome

theorem Volume.shadowed_iff {path : CStr} :
    v.Shadowed path ↔ (splitPath path).isSome ∧ ∃ rest k,
      v.resolve (joinPath path rest) inodeFile = some k := by
  constructor
  · rintro ⟨dirname, name, d, rest, hsplit, hd, hfile⟩
    obtain ⟨k, hk⟩ := Option.isSome_iff_exists.mp hfile
    exact ⟨by rw [hsplit]; rfl, rest, k, by
      rw [Volume.resolve_dir (splitPath_joinPath hsplit rest) hd, hk]⟩
  · rintro ⟨hsplit, rest, k, hk⟩
    obtain ⟨⟨dirname, name⟩, hsplit⟩ := Option.isSome_iff_exists.mp hsplit
    cases hd : v.findIn 0 dirname inodeDir with
    | none =>
        rw [Volume.resolve_none (splitPath_joinPath hsplit rest) hd] at hk
        cases hk
    | some d =>
        rw [Volume.resolve_dir (splitPath_joinPath hsplit rest) hd] at hk
        exact ⟨dirname, name, d, rest, hsplit, hd, by rw [hk]; rfl⟩

/-- Below a directory that went nothing is found, unless it only seemed to be there. -/
theorem Inv.resolve_joinPath_removed (h : Inv stray v) {path : CStr} {k d : InodeNo} {j : Slot}
    (hdir : v.resolve path inodeDir = some k) (hat : v.RemoveAt path d j k)
    (hr : v.Removed d j (Below (v.edge stray) k) v') {rest : CStr} {x : InodeNo} :
    v'.resolve (joinPath path rest) inodeFile = some x ↔
      (splitPath path).isSome ∧ v.resolve (joinPath path rest) inodeFile = some x := by
  obtain ⟨name, type, hparent, hit, -⟩ := hat
  have hd := h.parent_kept hparent
  obtain ⟨ws, hw⟩ := h.parent_walk hparent
  rw [h.resolve_removed hw hd hit.entry hr (by decide)]
  cases hsplit : splitPath path with
  | none =>
      simp only [Option.isSome_none, Bool.false_eq_true, false_and, iff_false, not_and]
      intro hx hout
      -- the whole path is the name of the directory
      rw [Volume.resolve_root hsplit] at hdir
      obtain ⟨i, hhit⟩ := (h.findIn_some h.linked.root (by decide)).mp hdir
      have hfits := h.linked.fits _ h.linked.root _ _ _ hhit.entry
      have hcomp : Component path := ⟨hfits.1, by omega, slash_notMem hsplit⟩
      rw [Volume.resolve_dir (splitPath_join hcomp (joinPath_chars path rest)) hdir] at hx
      obtain ⟨i', hfile⟩ := (h.findIn_some (h.findIn_kept hdir) (by decide)).mp hx
      exact hout ⟨[i'], .single ⟨h.findIn_kept hdir, _, hfile.entry⟩⟩
  | some parts =>
      simp only [Option.isSome_some, true_and, and_iff_left_iff_imp]
      intro hx hbelow
      -- the file is another entry of the same directory
      obtain ⟨d', name', i, hparent', hfile⟩ := (h.resolve_some (by decide)).mp hx
      have hdd : d' = d := by
        rw [Volume.Parent, hsplit] at hparent
        rw [Volume.Parent, splitPath_joinPath hsplit rest] at hparent'
        exact (h.hit_unique h.linked.root hparent'.1.choose_spec hparent.1.choose_spec).2
      subst hdd
      have hout : ¬ Below (v.edge stray) k d' := by
        rintro ⟨ls, w⟩
        exact h.rooted.below_irrefl hw ⟨hd, name, hit.entry⟩ w
      obtain ⟨-, rfl⟩ := h.rooted.entered ⟨hd, name, hit.entry⟩ ⟨hd, name', hfile.entry⟩ hbelow hout
      have heq := hfile.entry.symm.trans hit.entry
      simp only [Option.some.injEq, Prod.mk.injEq] at heq
      obtain rfl := inodeByte_injective heq.2
      obtain ⟨d₀, n₀, j₀, -, hdirhit⟩ := (h.resolve_some (by decide)).mp hdir
      exact absurd (hdirhit.type.symm.trans hfile.type) (by decide)

theorem session_nothingSurvives (hp : dev.Perfect) (h : Session dev (fun _ call _ => call.Loose) s)
    {path : CStr} (hdir : (fsIsDir dev path s).1 = .ok ()) {s' : Fs}
    (hrun : fsRemovePathRecursive dev path s = (.ok (), s')) :
    ((fsIsDir dev path s').1 = .refused ∧
        ∀ rest maxlen, (fsReadPath dev (joinPath path rest) maxlen s').1 = .refused) ↔
      ¬ s.toVolume.Shadowed path := by
  obtain ⟨stray, hready⟩ := h.ready hp fun s call _ hallow => hallow.fits s.toVolume
  have hinv := hready.inv
  rw [wp_outcome (fsIsDir_returns hp hready path)] at hdir
  have hsome : (s.toVolume.resolve path inodeDir).isSome := by
    by_contra hno
    rw [if_neg hno] at hdir
    cases hdir
  obtain ⟨k, hk⟩ := Option.isSome_iff_exists.mp hsome
  have htree : RemovedTree stray s.toVolume path s'.toVolume := by
    rcases wp_run (fsRemovePathRecursive_tree hp hinv path) hrun with ⟨_, -, ht⟩ | ⟨ho, -⟩ | ⟨ho, -⟩
    · exact ht
    · cases ho
    · cases ho
  have hready' : Ready stray s'.toVolume := by
    have hdone : Done stray s.toVolume (.removePathRecursive path) s'.toVolume := htree.removedAt
    exact ⟨hready.toSound.done hdone, hdone.mounted.trans hready.mounted⟩
  obtain ⟨d, j, k', v₁, hat, hr, hv⟩ := htree
  -- the entry that goes is the directory
  obtain ⟨d₀, name, j₀, hparent, hit⟩ := (hinv.resolve_some (by decide)).mp hk
  obtain ⟨rfl, rfl, rfl⟩ := hinv.removeAt_det hat ⟨name, inodeDir, hparent, hit, .inl rfl⟩
  obtain ⟨ws, hw⟩ := hinv.parent_walk hparent
  have hd := hinv.parent_kept hparent
  have h₁ := hinv.removed_below hw hd hit.entry hr
  have hisdir : (fsIsDir dev path s').1 = .refused := by
    rw [wp_outcome (fsIsDir_returns hp hready' path), if_neg]
    rw [hv, h₁.resolve_flush, Bool.not_eq_true, Option.isSome_eq_false_iff, Option.isNone_iff_eq_none]
    refine Option.eq_none_iff_forall_ne_some.mpr fun x hx => ?_
    obtain ⟨hx, hout⟩ := (hinv.resolve_removed hw hd hit.entry hr (by decide)).mp hx
    rw [hk] at hx
    cases hx
    exact hout (below_refl k')
  have hread : ∀ rest x, s'.toVolume.resolve (joinPath path rest) inodeFile = some x ↔
      (splitPath path).isSome ∧ s.toVolume.resolve (joinPath path rest) inodeFile = some x := by
    intro rest x
    rw [hv, h₁.resolve_flush, hinv.resolve_joinPath_removed hk hat hr]
  rw [Volume.shadowed_iff]
  constructor
  · rintro ⟨-, hgone⟩ ⟨hsplit, rest, x, hx⟩
    have := hgone rest 512
    rw [wp_outcome (fsReadPath_returns hp hready' _ _), (hread rest x).mpr ⟨hsplit, hx⟩] at this
    cases this
  · intro hno
    refine ⟨hisdir, fun rest maxlen => ?_⟩
    rw [wp_outcome (fsReadPath_returns hp hready' _ _)]
    cases hx : s'.toVolume.resolve (joinPath path rest) inodeFile with
    | none => rfl
    | some x =>
        obtain ⟨hsplit, hx⟩ := (hread rest x).mp hx
        exact (hno ⟨hsplit, rest, x, hx⟩).elim

/-- A directory `a` with a file `b`; then `a` goes. -/
theorem session_nothingSurvives_root :
    ((fsIsDir .working nameA (fsRemovePathRecursive .working nameA
          (.started .working (fun _ => Bytes.zero) 0
            [.mkdirPath nameA, .writePath pathAB nameB])).2).1 = .refused ∧
        ∀ rest maxlen, (fsReadPath .working (joinPath nameA rest) maxlen
          (fsRemovePathRecursive .working nameA (.started .working (fun _ => Bytes.zero) 0
            [.mkdirPath nameA, .writePath pathAB nameB])).2).1 = .refused) ↔
      ¬ (Fs.started .working (fun _ => Bytes.zero) 0
        [.mkdirPath nameA, .writePath pathAB nameB]).Shadowed nameA := by
  have hsession : Session .working (fun _ call _ => call.Loose) (.started .working
      (fun _ => Bytes.zero) 0 [.mkdirPath nameA, .writePath pathAB nameB]) :=
    .started (by decide +kernel) fun call hcall _ _ => by revert call; decide
  have hrun : fsRemovePathRecursive .working nameA (.started .working (fun _ => Bytes.zero) 0
      [.mkdirPath nameA, .writePath pathAB nameB]) = (.ok (), _) := run_eq (by decide +kernel)
  exact session_nothingSurvives Device.working_perfect hsession (by decide +kernel) hrun

/-- Directories `a` and `a/b`, and in `a` a file whose name is `b/b`. -/
def slashInName : List Call :=
  [.mkdirPath nameA, .mkdirPath pathAB, .writePath (joinPath pathAB nameB) nameA]

/-- The file `b/b` of directory `a` is not in the directory `b` that is removed. -/
theorem not_session_nothingSurvives :
    ¬ ∀ dev s, dev.Perfect → Session dev (fun _ call _ => call.Loose) s →
      ∀ path s', (fsIsDir dev path s).1 = .ok () → fsRemovePathRecursive dev path s = (.ok (), s') →
        (fsIsDir dev path s').1 = .refused ∧
          ∀ rest maxlen, (fsReadPath dev (joinPath path rest) maxlen s').1 = .refused := by
  intro h
  have hsession : Session .working (fun _ call _ => call.Loose) (.started .working
      (fun _ => Bytes.zero) 0 slashInName) :=
    .started (by decide +kernel) fun call hcall _ _ => by revert call; decide
  have hrun : fsRemovePathRecursive .working pathAB (.started .working (fun _ => Bytes.zero) 0
      slashInName) = (.ok (), _) := run_eq (by decide +kernel)
  have hgone := (h _ _ Device.working_perfect hsession pathAB _ (by decide +kernel) hrun).2 nameB 512
  revert hgone
  decide +kernel

/-! ## Plain and recursive removal -/

/-- Where no directory has the name, both removals take the same entry or none. -/
theorem session_removalsAgree (hp : dev.Perfect)
    (h : Session dev (fun _ call _ => call.Ordinary) s) {path : CStr}
    (hdir : s.toVolume.resolve path inodeDir = none) :
    (fsRemovePath dev path s).1 = (fsRemovePathRecursive dev path s).1 ∧
      (fsRemovePath dev path s).2.toVolume = (fsRemovePathRecursive dev path s).2.toVolume := by
  obtain ⟨stray, hready⟩ := h.ready hp fun s call _ hallow => hallow.fits s.toVolume
  have hinv := hready.inv
  have nodir : ∀ {d name}, s.toVolume.Parent path d name →
      ∀ i k, ¬ Hit (s.dirAt d) s.inodes name inodeDir i k := by
    intro d name hparent i k hit
    rw [(hinv.resolve_some (by decide)).mpr ⟨d, name, i, hparent, hit⟩] at hdir
    cases hdir
  generalize hplain : fsRemovePath dev path s = r
  generalize hrec : fsRemovePathRecursive dev path s = r'
  obtain ⟨o, s₁⟩ := r
  obtain ⟨o', s₂⟩ := r'
  rcases wp_run (fsRemovePath_file hp hinv path) hplain with
    ⟨_, rfl, d, name, j, k, _, v₁, hparent, rfl, hit, hr, hv⟩ | ⟨rfl, hv, hmiss⟩ | ⟨-, hno⟩
  · have hat : s.toVolume.RemoveAt path d j k :=
      ⟨name, inodeFile, hparent, hit, .inr ⟨rfl, nodir hparent⟩⟩
    rcases wp_run (fsRemovePathRecursive_tree hp hinv path) hrec with
      ⟨_, rfl, d', j', k', v₂, hat', hr', hv'⟩ | ⟨rfl, -, hmiss⟩ | ⟨-, hno⟩
    · obtain ⟨rfl, rfl, rfl⟩ := hinv.removeAt_det hat hat'
      obtain rfl := hr.unique hr'
      exact ⟨rfl, hv.trans hv'.symm⟩
    · exact (hmiss hready.mounted d j k hat).elim
    · exact hno.elim
  · rcases wp_run (fsRemovePathRecursive_tree hp hinv path) hrec with
      ⟨_, rfl, d, j, k, v₂, ⟨name, type, hparent, hit, htype⟩, -, -⟩ | ⟨rfl, hv', -⟩ | ⟨-, hno⟩
    · rcases htype with rfl | ⟨rfl, -⟩
      · exact (nodir hparent j k hit).elim
      · exact (hmiss hready.mounted k ⟨d, name, j, hparent, hit⟩).elim
    · exact ⟨rfl, hv.trans hv'.symm⟩
    · exact hno.elim
  · exact hno.elim

/-- A file `b` in a directory `a` is removed one way and the other. -/
theorem session_removalsAgree_file :
    (fsRemovePath .working pathAB (.started .working (fun _ => Bytes.zero) 0
        [.mkdirPath nameA, .writePath pathAB nameB])).1 =
      (fsRemovePathRecursive .working pathAB (.started .working (fun _ => Bytes.zero) 0
        [.mkdirPath nameA, .writePath pathAB nameB])).1 ∧
    (fsRemovePath .working pathAB (.started .working (fun _ => Bytes.zero) 0
        [.mkdirPath nameA, .writePath pathAB nameB])).2.toVolume =
      (fsRemovePathRecursive .working pathAB (.started .working (fun _ => Bytes.zero) 0
        [.mkdirPath nameA, .writePath pathAB nameB])).2.toVolume := by
  have hsession : Session .working (fun _ call _ => call.Ordinary) (.started .working
      (fun _ => Bytes.zero) 0 [.mkdirPath nameA, .writePath pathAB nameB]) :=
    .started (by decide +kernel) fun call hcall _ _ => by revert call; decide
  exact session_removalsAgree Device.working_perfect hsession (by decide +kernel)

end SevenOS
