import En675.Videnc.Saver
import Mathlib.Data.Finset.Insert
import Mathlib.Data.Finset.Erase

/-! The list of the recorded files beside the directory they are in. -/

namespace En675.Videnc

open Lib Prog

/-- The files of the recorder's directory, and the one that is open. -/
structure Card where
  dir : Finset (List UInt8)
  opened : Option (List UInt8)
  deriving DecidableEq

/-- What a call makes of the card; the file that is open is not to be unlinked. -/
def Card.next (c : Card) (e : Sigma FatCall.Answer) : Option Card :=
  match e with
  | ⟨.fOpen name, fres⟩ =>
    if (fres : FResult) = .ok then some ⟨insert name c.dir, some name⟩ else some c
  | ⟨.fUnlink name, fres⟩ =>
    if c.opened = some name then none
    else if (fres : FResult) = .ok then some { c with dir := c.dir.erase name } else some c
  | ⟨.fClose, _⟩ => some { c with opened := none }
  | _ => some c

/-- The names that are listed. -/
def EncHeap.listed (h : EncHeap) : Multiset (List UInt8) := h.names.map EncHData.filename

/-- No file was unlinked while it was open, and since the first scan of the directory the list
has exactly its files. -/
def ListMirrors (start : Finset (List UInt8)) (x : Session FatCall.Answer Saver) : Prop :=
  ∃ c, watch Card.next ⟨start, none⟩ x.calls = some c ∧
    (x.state.mounted = true → x.state.filenamelist.listed = c.dir.val)

/-- Files are created and unlinked, and `f_readdir` reads the directory. -/
def Card.Serves (c : Card) (e : Sigma FatCall.Answer) : Prop :=
  match e with
  | ⟨.fOpen _, fres⟩ => (fres : FResult) = .ok
  | ⟨.fExpand, fres⟩ => (fres : FResult) = .ok
  | ⟨.fUnlink _, fres⟩ => (fres : FResult) = .ok
  | ⟨.fOpendir, entries⟩ =>
    (((entries : List FilInfo).filter fun f => !f.dir).map FilInfo.fname : Multiset (List UInt8)) = c.dir.val
  | _ => True

/-- A file is opened under a name that is not in the directory and, with a full list, not older
than all listed ones; the directory is scanned while no file is open. -/
def Saver.NamesKept (r : Saver) (c : Card) (e : Sigma FatCall.Answer) : Prop :=
  match e with
  | ⟨.fOpen name, _⟩ => name ∉ c.dir
  | ⟨.fileGetname, name⟩ => r.filenamelist.usedsize = r.filenamelist.capacity →
      ¬ 0 < strcmp (r.filenamelist.node 0).stamp (name : FileName).stamp
  | ⟨.fOpendir, _⟩ => c.opened = none
  | _ => True

def ListOk (start : Finset (List UInt8)) : Session FatCall.Answer Saver → SaverEvent × FatTrace → Prop :=
  Session.Ok Lts.any Card.next (fun r _ c e => c.Serves e ∧ r.NamesKept c e) ⟨start, none⟩

namespace EncHeap

variable {h : EncHeap} {n : Nat} {dir : Finset (List UInt8)}

theorem listed_delete (s : Sound n h) (some : h.usedsize ≠ 0) :
    Sound n (encHeapDeleteQueue h).2 ∧
      h.listed = (encHeapDeleteQueue h).1 ::ₘ (encHeapDeleteQueue h).2.listed := by
  obtain ⟨sound, deletes⟩ := deleteQueue_spec s
  obtain ⟨d, name, _, lost⟩ := deletes.2 some
  refine ⟨sound, ?_⟩
  rw [listed, lost, Multiset.map_cons, name]
  rfl

/-- An added name is listed, and a name put out of a full list is the one in `delHData`. -/
theorem listed_add (s : Sound n h) (pos : 1 ≤ n) (name : FileName) :
    Sound n (encHeapAddQueue h name).2 ∧
      ((encHeapAddQueue h name).1 ≠ 1 → (encHeapAddQueue h name).2.listed = name.filename ::ₘ h.listed) ∧
      ((encHeapAddQueue h name).1 = 1 → h.usedsize = h.capacity ∧
        name.filename ::ₘ h.listed =
          (encHeapAddQueue h name).2.delHData.filename ::ₘ (encHeapAddQueue h name).2.listed) := by
  obtain ⟨sound, room, full⟩ := enQueue_spec s pos name.toEncHData
  have bounded : h.usedsize < h.capacity ∨ h.usedsize = h.capacity :=
    Nat.lt_or_eq_of_le (s.cap ▸ s.bounded)
  refine ⟨sound, fun not_full => ?_, fun is_full => ?_⟩
  · rcases bounded with lt | eq
    · rw [listed, encHeapAddQueue, (room lt).2.1, Multiset.map_cons]
      rfl
    · exact absurd (full eq).1 not_full
  · rcases bounded with lt | eq
    · exact nomatch (room lt).1.symm.trans is_full
    · have moved := congrArg (Multiset.map EncHData.filename) (full eq).2.2
      rw [Multiset.map_cons, Multiset.map_cons] at moved
      exact ⟨eq, moved⟩

/-- The name put out for one that is not older than the root is the root. -/
theorem delHData_of_newer (full : h.usedsize = h.capacity) (some : h.usedsize ≠ 0) (name : FileName)
    (newer : ¬ 0 < strcmp (h.node 0).stamp name.stamp) :
    (encHeapAddQueue h name).2.delHData = h.node 0 := by
  have root : (encHeapDeQueue h).1 = h.node 0 := by rw [encHeapDeQueue, if_neg some]
  simp only [encHeapAddQueue, encHeapEnQueue, if_pos full, if_neg newer]
  exact root

theorem root_listed (some : h.usedsize ≠ 0) : (h.node 0).filename ∈ h.listed :=
  Multiset.mem_map_of_mem _ (Lib.Heap.mem_contents.mpr ⟨0, Nat.pos_of_ne_zero some, rfl⟩)

end EncHeap

theorem eq_erase {s : Multiset (List UInt8)} {dir : Finset (List UInt8)} (h : dir.val = name ::ₘ s) :
    s = (dir.erase name).val := by
  rw [Finset.erase_val, h, Multiset.erase_cons_head]

theorem strcmp_ne {as bs : List UInt8} (ha : 0 ∉ as) (hb : 0 ∉ bs) (h : as ≠ bs) : strcmp as bs ≠ 0 := by
  intro eq
  have lt := strcmp_neg_iff as bs hb
  have gt := strcmp_neg_iff bs as ha
  rw [strcmp_swap, eq] at gt
  rw [eq] at lt
  have same : as.map UInt8.toNat = bs.map UInt8.toNat :=
    le_antisymm (not_lt.mp (gt.not.mp (by decide))) (not_lt.mp (lt.not.mp (by decide)))
  exact h (List.map_injective_iff.mpr (fun _ _ => UInt8.toNat_inj.mp) same)

namespace Saver

def Place.isHeading : Place → Bool
  | .adding _ .open_ => true
  | _ => false

/-- The list beside the card, and where no file is open. -/
structure Kept (r : Saver) (c : Card) : Prop where
  sound : EncHeap.Sound (maxFileNum + 1) r.filenamelist
  mirror : r.mounted = true → r.filenamelist.listed = c.dir.val
  rest : r.mounted = false → r.place = .wait
  opening : r.place.isOpening = true → c.opened = none
  idle : r.pvid.state = .idle → Place.isHeading r.place = false → c.opened = none

/-- A turn that leaves the list and the directory as they are. -/
structure Quiet (r : Saver) (c : Card) (t : Saver) (d : Card) : Prop where
  list : t.filenamelist = r.filenamelist
  mounted : t.mounted = r.mounted
  inside : t.place.isOpening = false
  dir : d.dir = c.dir
  opened : d.opened = none ∨ d.opened = c.opened ∧ (t.pvid.state = .idle →
    Place.isHeading t.place = true ∨ r.pvid.state = .idle ∧ Place.isHeading r.place = false)

theorem Kept.quiet {r t : Saver} (k : r.Kept c) (q : Quiet r c t d) (hm : r.mounted = true) : t.Kept d where
  sound := q.list ▸ k.sound
  mirror _ := by
    rw [q.list, q.dir]
    exact k.mirror hm
  rest h := nomatch (q.mounted.trans hm).symm.trans h
  opening h := nomatch q.inside.symm.trans h
  idle hi hh := by
    rcases q.opened with none | ⟨same, keeps⟩
    · exact none
    · rcases keeps hi with heading | before
      · exact nomatch hh.symm.trans heading
      · exact same.trans (k.idle before.1 before.2)

section calls

variable {r : Saver} {c : Card} {A : Card → Sigma FatCall.Answer → Prop}

theorem error_card {e : VidError} {post : Saver → Card → Prop} (he : e ≠ .idxbufOvf ∧ e ≠ .full)
    (done : post r.stopped { c with opened := none }) :
    Meets Card.next A (r.muxerVidencError e) c post := by
  simp only [error_eq he, meets_bind, meets_ask, meets_pure]
  intro fres _
  exact ⟨_, rfl, done⟩

theorem noFreesize_card {test : Bool} {post : Bool → Card → Prop} (done : ∀ full, post full c) :
    Meets Card.next A (noFreesize test) c post := by
  cases test with
  | false => exact done false
  | true =>
    simp only [noFreesize, if_true, meets_bind, meets_ask, meets_pure]
    intro nFreeSize _
    exact ⟨c, rfl, done _⟩

theorem flush_card {post : FResult × Saver → Card → Prop} (done : post (.ok, r.setLength 0) c)
    (stops : ∀ fres, post (fres, r.stopped) { c with opened := none }) :
    Meets Card.next A r.muxerVidencBufferflush c post := by
  simp only [muxerVidencBufferflush, meets_bind, meets_ask]
  rintro ⟨fres, bw⟩ _
  refine ⟨c, rfl, ?_⟩
  dsimp only
  split
  · simp only [meets_bind, meets_pure]
    exact error_card (by decide) (stops fres)
  · rename_i ok
    obtain rfl : fres = .ok := not_not.mp ok
    simp only [meets_bind]
    refine noFreesize_card fun full => ?_
    cases full with
    | true =>
      simp only [if_true, meets_bind, meets_pure]
      exact error_card (by decide) (stops _)
    | false =>
      simp only [Bool.false_eq_true, if_false, meets_bind]
      refine noFreesize_card fun full => ?_
      cases full with
      | true =>
        simp only [if_true, meets_bind, meets_pure]
        exact error_card (by decide) (stops _)
      | false => exact done

end calls

section process

variable {r t : Saver} {c : Card} {A : Card → Sigma FatCall.Answer → Prop} {back : Back}

/-- `t` has the list of `r`, and is idle only if `r` is. -/
structure Alike (r t : Saver) : Prop where
  list : t.filenamelist = r.filenamelist
  mounted : t.mounted = r.mounted
  idle : t.pvid.state = .idle → r.pvid.state = .idle

theorem Alike.refl (r : Saver) : Alike r r := ⟨rfl, rfl, id⟩

theorem Alike.goto (h : Alike r t) (p : Place) : Alike r (t.goto p) := ⟨h.list, h.mounted, h.idle⟩

theorem Alike.setLength (h : Alike r t) (n : Nat) : Alike r (t.setLength n) := ⟨h.list, h.mounted, h.idle⟩

/-- A turn without calls, from a place where an idle recorder has no file. -/
theorem Alike.quiet (h : Alike r t) (hp : Place.isHeading r.place = false)
    (inside : t.place.isOpening = false) : Quiet r c t c :=
  ⟨h.list, h.mounted, inside, rfl, .inr ⟨rfl, fun hi => .inr ⟨h.idle hi, hp⟩⟩⟩

/-- A turn that closes the file. -/
theorem Alike.quiet_closed (list : t.filenamelist = r.filenamelist) (mounted : t.mounted = r.mounted)
    (inside : t.place.isOpening = false) : Quiet r c t { c with opened := none } :=
  ⟨list, mounted, inside, rfl, .inl rfl⟩

theorem Alike.adding (h : Alike r t) (hp : r.place = .adding adds back) (adds' : List Add) :
    Quiet r c (t.goto (.adding adds' back)) c := by
  refine ⟨h.list, h.mounted, rfl, rfl, .inr ⟨rfl, fun hi => ?_⟩⟩
  rw [hp]
  cases back with
  | open_ => exact .inl rfl
  | _ => exact .inr ⟨h.idle hi, rfl⟩

theorem addRound_quiet (hp : r.place = .adding (a :: rest) back) :
    Meets Card.next A (r.addRound a rest back) c (Quiet r c) := by
  have alike := Alike.refl r
  unfold addRound
  split
  · simp only [meets_bind, meets_pure]
    apply flush_card
    · exact (alike.setLength 0).adding hp rest
    · exact fun fres => Alike.quiet_closed rfl rfl rfl
  · split
    · exact alike.adding hp rest
    · dsimp only
      generalize (if a.size.toNat ≥ r.buffer.total - r.buffer.length then
        r.buffer.total - r.buffer.length else a.size.toNat) = wb
      split
      · simp only [meets_bind]
        apply flush_card
        · exact ((alike.setLength _).setLength 0).adding hp _
        · intro fres
          dsimp only
          split <;> exact Alike.quiet_closed rfl rfl rfl
      · exact (alike.setLength _).adding hp _

theorem goOn_alike (h : Alike r t) : Alike r t.goOn ∧ t.goOn.place.isOpening = false := by
  unfold goOn
  split
  · exact ⟨⟨h.list, h.mounted, h.idle⟩, rfl⟩
  · split
    · exact ⟨⟨h.list, h.mounted, nofun⟩, rfl⟩
    · exact ⟨⟨h.list, h.mounted, h.idle⟩, rfl⟩

theorem makevidheader_alike (h : Alike r t) : Alike r t.muxerVidencMakevidheader.2 := by
  unfold muxerVidencMakevidheader changeSavetimeStart
  split
  · dsimp only
    split <;> exact ⟨h.list, h.mounted, h.idle⟩
  all_goals exact ⟨h.list, h.mounted, h.idle⟩

theorem resume_quiet (h : Alike r t) (hp : Place.isHeading r.place = true → back = .open_) :
    Meets Card.next A (t.resume back) c (Quiet r c) := by
  have inside (other : back ≠ .open_) : Place.isHeading r.place = false := by
    cases hh : Place.isHeading r.place with
    | false => rfl
    | true => exact absurd (hp hh) other
  cases back with
  | open_ => exact ⟨h.list, h.mounted, rfl, rfl, .inr ⟨rfl, by rintro ⟨⟩⟩⟩
  | next => exact ⟨h.list, h.mounted, rfl, rfl, .inr ⟨rfl, by rintro ⟨⟩⟩⟩
  | nextI => exact (h.goto .wait).quiet (inside (by rintro ⟨⟩)) rfl
  | get =>
    have on := goOn_alike h
    exact on.1.quiet (inside (by rintro ⟨⟩)) on.2
  | closeFlush a => exact ((makevidheader_alike h).goto _).quiet (inside (by rintro ⟨⟩)) rfl
  | closeHeader a =>
    simp only [resume, meets_bind, meets_ask, meets_pure]
    intro fres _
    exact ⟨c, rfl, (h.goto _).quiet (inside (by rintro ⟨⟩)) rfl⟩
  | closeLast a =>
    simp only [resume, meets_bind, meets_ask, meets_pure]
    intro fres _
    refine ⟨_, rfl, ?_⟩
    cases a with
    | exit => exact Alike.quiet_closed h.list h.mounted rfl
    | savetime fpsval => exact Alike.quiet_closed h.list h.mounted rfl
    | full => exact Alike.quiet_closed h.list h.mounted rfl

theorem write_quiet (h : Alike r t) (hp : Place.isHeading r.place = false) :
    Meets Card.next A (t.muxerVidencWrite back) c (Quiet r c) := by
  have resumes (u : Saver) (h : Alike r u) : Meets Card.next A (u.resume back) c (Quiet r c) :=
    resume_quiet h fun hh => nomatch hp.symm.trans hh
  unfold muxerVidencWrite
  split
  · dsimp only
    split
    · split
      · exact Alike.quiet ⟨h.list, h.mounted, h.idle⟩ hp rfl
      · trivial
    · exact resumes _ ⟨h.list, h.mounted, h.idle⟩
  · exact resumes t h

theorem taken_alike (r : Saver) (d : SbufData) (q : Sbuf) : Alike r (r.taken d q) := ⟨rfl, rfl, id⟩

theorem fristVideo_quiet (hp : Place.isHeading r.place = false) : Quiet r c r.muxerVidencFristVideo c := by
  unfold muxerVidencFristVideo
  split
  · exact ((Alike.refl r).goto _).quiet hp rfl
  · split
    · exact Alike.quiet ⟨rfl, rfl, nofun⟩ hp rfl
    · exact ((taken_alike r _ _).goto _).quiet hp rfl

theorem nextIVideo_quiet (hp : Place.isHeading r.place = false) :
    Meets Card.next A r.muxerVidencNextIVideo c (Quiet r c) := by
  unfold muxerVidencNextIVideo
  split
  · exact ((Alike.refl r).goto _).quiet hp rfl
  · split
    · exact write_quiet ⟨rfl, rfl, nofun⟩ hp
    · exact ((taken_alike r _ _).goto _).quiet hp rfl

theorem firstNext_quiet (hp : Place.isHeading r.place = false) :
    Meets Card.next A r.muxerVidencFirstNext c (Quiet r c) := by
  unfold muxerVidencFirstNext
  split
  · exact ((Alike.refl r).goto _).quiet hp rfl
  · exact write_quiet (Alike.refl r) hp

theorem writeEntry_quiet (hp : Place.isHeading r.place = false) : Quiet r c r.writeEntry c := by
  unfold writeEntry
  split
  · split
    · exact Alike.quiet ⟨rfl, rfl, nofun⟩ hp rfl
    · have on := goOn_alike (Alike.refl r)
      exact on.1.quiet hp on.2
  · exact Alike.quiet ⟨rfl, rfl, nofun⟩ hp rfl

theorem writePeek_quiet (hp : Place.isHeading r.place = false) : Quiet r c r.writePeek c := by
  unfold writePeek
  split
  · exact ((Alike.refl r).goto _).quiet hp rfl
  · dsimp only
    split
    · exact Alike.quiet ⟨rfl, rfl, nofun⟩ hp rfl
    · exact Alike.quiet ⟨rfl, rfl, id⟩ hp rfl

theorem writeGet_quiet (hp : Place.isHeading r.place = false) :
    Meets Card.next A r.writeGet c (Quiet r c) := by
  unfold writeGet
  split
  · exact ((Alike.refl r).goto _).quiet hp rfl
  · exact write_quiet ⟨rfl, rfl, id⟩ hp

end process

section open_

variable {r : Saver} {c : Card} {A : Card → Sigma FatCall.Answer → Prop}

/-- A file is unlinked that is not the open one. -/
theorem unlink_card {name : List UInt8} {post : FResult → Card → Prop} (other : c.opened ≠ some name)
    (serves : ∀ fres, A c ⟨.fUnlink name, fres⟩ → (fres : FResult) = .ok)
    (done : post .ok { c with dir := c.dir.erase name }) :
    Meets Card.next A (FatProg.fUnlink name) c post := by
  intro fres allowed
  obtain rfl := serves fres allowed
  refine ⟨{ c with dir := c.dir.erase name }, ?_, done⟩
  simp only [Card.next, if_neg other, if_true]

theorem fileDelete_card (k : r.Kept c) (hm : r.mounted = true) (opening : r.place.isOpening = true)
    (cnt nFreeSize : Nat) :
    Meets Card.next (fun c e => c.Serves e ∧ r.NamesKept c e) (r.videncInfoFileDelete cnt nFreeSize) c Kept := by
  have shut := k.opening opening
  have stays (t : Saver) (d : Card) (sound : EncHeap.Sound (maxFileNum + 1) t.filenamelist)
      (mirror : t.filenamelist.listed = d.dir.val) (mounted : t.mounted = true)
      (none : d.opened = none) : t.Kept d :=
    ⟨sound, fun _ => mirror, (fun h => by cases mounted.symm.trans h), fun _ => none, fun _ _ => none⟩
  unfold videncInfoFileDelete
  split
  · split
    · exact stays _ _ k.sound (k.mirror hm) hm shut
    · rename_i some
      obtain ⟨sound, lost⟩ := EncHeap.listed_delete k.sound some
      have left := eq_erase ((k.mirror hm).symm.trans lost)
      simp only [meets_bind]
      refine unlink_card (by rw [shut]; rintro ⟨⟩) (fun _ => And.left) ?_
      split
      · exact stays _ _ sound left hm shut
      · simp only [meets_bind, meets_ask, meets_pure]
        intro nFreeSize _
        exact ⟨_, rfl, stays _ _ sound left hm shut⟩
  · exact stays _ _ k.sound (k.mirror hm) hm shut

/-- The header added behind a list that mirrors the card. -/
theorem header_kept {t : Saver} {d : Card} (sound : EncHeap.Sound (maxFileNum + 1) t.filenamelist)
    (mirror : t.filenamelist.listed = d.dir.val) (mounted : t.mounted = true) :
    ((t.setLength 0).addHeader .open_).Kept d := by
  have alike := makevidheader_alike ((Alike.refl t).setLength 0)
  refine ⟨?_, fun _ => ?_, fun h => ?_, nofun, nofun⟩
  · exact (alike.list ▸ sound : EncHeap.Sound (maxFileNum + 1) _)
  · exact (congrArg EncHeap.listed alike.list).trans mirror
  · exact nomatch (alike.mounted.trans mounted).symm.trans h

theorem openListed_card (k : r.Kept c) (hm : r.mounted = true) {name : FileName}
    (hn : name.filename ∉ c.dir)
    (newer : r.filenamelist.usedsize = r.filenamelist.capacity →
      ¬ 0 < strcmp (r.filenamelist.node 0).stamp name.stamp) :
    Meets Card.next (fun c e => c.Serves e ∧ r.NamesKept c e)
      (openListed { r with nowName := name.filename } name)
      ⟨insert name.filename c.dir, some name.filename⟩ Kept := by
  obtain ⟨sound, adds, puts⟩ := EncHeap.listed_add k.sound (by decide) name
  have mirror := k.mirror hm
  have created : (insert name.filename c.dir).val = name.filename ::ₘ r.filenamelist.listed := by
    rw [mirror, Finset.insert_val_of_notMem hn]
  unfold openListed
  dsimp only [setList]
  by_cases full : (encHeapAddQueue r.filenamelist name).1 = 1
  · obtain ⟨size, moved⟩ := puts full
    have some : r.filenamelist.usedsize ≠ 0 := by
      rw [size, k.sound.cap]
      decide
    have root := EncHeap.delHData_of_newer size some name (newer size)
    have other : name.filename ≠ (r.filenamelist.node 0).filename := by
      intro same
      apply hn
      rw [same, ← Finset.mem_val, ← mirror]
      exact EncHeap.root_listed some
    have differs := strcmp_ne name.terminated (r.filenamelist.node 0).terminated other
    simp only [full, true_and, root, if_neg differs, if_true, meets_bind, meets_pure]
    refine unlink_card (fun h => other (Option.some.inj h)) (fun _ => And.left) ?_
    refine header_kept { sound with } ?_ hm
    rw [root] at moved
    exact eq_erase (created.trans moved)
  · simp only [full, false_and, if_false]
    exact header_kept sound ((adds full).trans created.symm) hm

theorem open_card (k : r.Kept c) (hm : r.mounted = true) (n : Nat) :
    Meets Card.next (fun c e => c.Serves e ∧ r.NamesKept c e) (r.muxerVidencOpen n) c Kept := by
  unfold muxerVidencOpen
  split
  · simp only [muxerVidencError, reduceCtorEq, if_false, if_true, meets_bind, meets_ask, meets_pure]
    intro fres _
    refine ⟨_, rfl, k.sound, fun _ => k.mirror hm, fun h => ?_, by rintro ⟨⟩, fun _ _ => rfl⟩
    cases hm.symm.trans h
  · simp only [meets_bind, meets_ask]
    rintro name ⟨_, newer⟩
    refine ⟨c, rfl, ?_⟩
    rintro fres ⟨created, fresh⟩
    obtain rfl : fres = .ok := created
    refine ⟨⟨insert name.filename c.dir, some name.filename⟩, rfl, ?_⟩
    simp only [ne_eq, not_true_eq_false, if_false, meets_bind, meets_ask]
    rintro fexp ⟨created, _⟩
    obtain rfl : fexp = .ok := created
    exact ⟨_, rfl, openListed_card k hm fresh newer⟩

end open_

section turns

variable {r : Saver} {c : Card} {l : SaverEvent}

theorem idle_card (k : r.Kept c) (hm : r.mounted = true) (hp : r.place = .wait)
    (idle : r.pvid.state = .idle) {A : Card → Sigma FatCall.Answer → Prop} :
    Meets Card.next A r.muxerVidencIdle c Kept := by
  have shut := k.idle idle (by rw [hp]; rfl)
  simp only [muxerVidencIdle, meets_bind, meets_ask, meets_pure]
  intro nFreeSize _
  refine ⟨c, rfl, k.sound, fun _ => k.mirror hm, fun h => ?_, fun _ => shut, fun _ _ => shut⟩
  cases hm.symm.trans h

theorem enter_card (k : r.Kept c) (hm : r.mounted = true) (hp : r.place = .wait)
    {A : Card → Sigma FatCall.Answer → Prop} : Meets Card.next A r.enter c Kept := by
  have quiet (t : Saver) (h : Alike r t) (inside : t.place.isOpening = false) : t.Kept c :=
    k.quiet (h.quiet (by rw [hp]; rfl) inside) hm
  have same := Alike.refl r
  unfold enter
  split
  · rename_i idle
    exact idle_card k hm hp idle
  · exact quiet _ (same.goto _) rfl
  · exact quiet _ (same.goto _) rfl
  · exact quiet _ (same.goto _) rfl
  · exact quiet _ (same.goto _) rfl
  · exact k

theorem process_card (k : r.Kept c) :
    Meets Card.next (fun c e => c.Serves e ∧ r.NamesKept c e) r.muxerVidenc c Kept := by
  unfold muxerVidenc
  split
  · exact k
  · rename_i active
    have hm : r.mounted = true := by
      by_contra unmounted
      exact active ⟨k.rest (Bool.not_eq_true _ ▸ unmounted), fun both => unmounted both.1⟩
    have quiet {p : FatProg Saver} {A : Card → Sigma FatCall.Answer → Prop}
        (h : Meets Card.next A p c (Quiet r c)) : Meets Card.next A p c Kept :=
      h.mono fun _ _ q => k.quiet q hm
    unfold muxerVidencProcess
    cases hp : r.place with
    | wait => exact enter_card k hm hp
    | reclaim cnt n => exact fileDelete_card k hm (by rw [hp]; rfl) cnt n
    | room n => exact open_card k hm n
    | adding adds back =>
      cases adds with
      | nil =>
        have heading (hh : Place.isHeading r.place = true) : back = .open_ := by
          rw [hp] at hh
          cases back with
          | open_ => rfl
          | _ => cases hh
        dsimp only [addsDone]
        split
        · exact quiet (resume_quiet ⟨rfl, rfl, id⟩ heading)
        · exact quiet (resume_quiet (Alike.refl r) heading)
      | cons a rest => exact quiet (addRound_quiet hp)
    | frist => exact quiet (fristVideo_quiet (by rw [hp]; rfl))
    | next => exact quiet (firstNext_quiet (by rw [hp]; rfl))
    | nextI => exact quiet (nextIVideo_quiet (by rw [hp]; rfl))
    | write => exact quiet (writeEntry_quiet (by rw [hp]; rfl))
    | peek => exact quiet (writePeek_quiet (by rw [hp]; rfl))
    | get => exact quiet (writeGet_quiet (by rw [hp]; rfl))

end turns

section scan

variable {r : Saver} {c : Card} {A : Card → Sigma FatCall.Answer → Prop}

/-- The files of the directory that are still to be read. -/
def files (fs : List FilInfo) : Multiset (List UInt8) := (fs.filter fun f => !f.dir).map FilInfo.fname

/-- A scan under way: what is in the directory is listed or still to be read. -/
structure Scanning (r : Saver) (fs : List FilInfo) (t : Saver) (c : Card) : Prop where
  sound : EncHeap.Sound (maxFileNum + 1) t.filenamelist
  split : c.dir.val = files fs + t.filenamelist.listed
  shut : c.opened = none
  place : t.place = r.place

theorem scanEntry_card {t : Saver} (serves : ∀ c name fres, A c ⟨.fUnlink name, fres⟩ → (fres : FResult) = .ok)
    (h : Scanning r (f :: fs) t c) : Meets Card.next A (t.scanEntry f) c (Scanning r fs) := by
  have unlinks {name : List UInt8} {post : FResult → Card → Prop}
      (done : post .ok { c with dir := c.dir.erase name }) :
      Meets Card.next A (FatProg.fUnlink name) c post :=
    unlink_card (by rw [h.shut]; nofun) (serves c name) done
  unfold scanEntry
  split
  · rename_i directory
    refine ⟨h.sound, ?_, h.shut, h.place⟩
    rw [h.split, files, files, List.filter_cons_of_neg (by simp [directory])]
  · rename_i file
    have whole : c.dir.val = f.fname ::ₘ (files fs + t.filenamelist.listed) := by
      rw [h.split, files, files, List.filter_cons_of_pos (by simp [file]), List.map_cons,
        ← Multiset.cons_coe, Multiset.cons_add]
    split
    · rename_i len
      split
      · simp only [meets_bind, meets_pure]
        exact unlinks ⟨h.sound, (eq_erase whole).symm, h.shut, h.place⟩
      · obtain ⟨sound, adds, puts⟩ := EncHeap.listed_add h.sound (by decide) (f.name len)
        dsimp only [setList]
        split
        · rename_i full
          simp only [meets_bind, meets_pure]
          refine unlinks ⟨{ sound with }, ?_, h.shut, h.place⟩
          refine (eq_erase ?_).symm
          rw [whole, ← Multiset.add_cons, ← Multiset.add_cons]
          congr 1
          exact (puts full).2
        · rename_i room
          refine ⟨sound, ?_, h.shut, h.place⟩
          rw [whole, ← Multiset.add_cons]
          congr 1
          exact (adds room).symm
    · simp only [meets_bind, meets_pure]
      exact unlinks ⟨h.sound, (eq_erase whole).symm, h.shut, h.place⟩

theorem scan_card {t : Saver} (serves : ∀ c name fres, A c ⟨.fUnlink name, fres⟩ → (fres : FResult) = .ok)
    (h : Scanning r fs t c) : Meets Card.next A (scan fs t) c (Scanning r []) := by
  induction fs generalizing t c with
  | nil => exact h
  | cons f fs ih =>
    simp only [scan, meets_bind]
    exact (scanEntry_card serves h).mono fun _ _ => ih

end scan

section runs

variable {r : Saver} {c : Card} {l : SaverEvent}

theorem files_nil : files [] = 0 := rfl

/-- `t` has the fields of `r` that `Kept` is about. -/
theorem Kept.same {t : Saver} (k : r.Kept c) (list : t.filenamelist = r.filenamelist)
    (mounted : t.mounted = r.mounted) (place : t.place = r.place) (state : t.pvid.state = r.pvid.state) :
    t.Kept c where
  sound := list ▸ k.sound
  mirror h := list ▸ k.mirror (mounted ▸ h)
  rest h := place.trans (k.rest (mounted ▸ h))
  opening h := k.opening (place ▸ h)
  idle hi hh := k.idle (state ▸ hi) (place ▸ hh)

theorem init_card {s : Saver} (k : r.Kept c) :
    Meets Card.next (fun c e => c.Serves e ∧ s.NamesKept c e) r.muxerVidencInit c Kept := by
  simp only [muxerVidencInit, videncInfoInitFilenamelist, meets_bind, meets_ask]
  intro there _
  refine ⟨c, rfl, ?_⟩
  cases there with
  | false => exact k
  | true =>
    simp only [if_true, meets_bind, meets_ask, meets_pure]
    rintro entries ⟨reads, shut⟩
    refine ⟨c, rfl, ?_⟩
    have start : Scanning r entries (((r.setState .idle).setLength 0).setList
        (encHeapResetQueue r.filenamelist)) c := by
      refine ⟨EncHeap.reset_sound k.sound, ?_, shut, rfl⟩
      rw [show c.dir.val = files entries from reads.symm]
      exact (Multiset.add_zero (files entries)).symm
    refine (scan_card (fun _ _ _ => And.left) start).mono fun t d done => ?_
    have listed : t.filenamelist.listed = d.dir.val := by
      rw [done.split, files_nil, Multiset.zero_add]
    have kept : { t with mounted := true }.Kept d :=
      ⟨done.sound, fun _ => listed, by rintro ⟨⟩, fun _ => done.shut, fun _ _ => done.shut⟩
    unfold changeSavetimeStart
    split
    · exact kept.same rfl rfl rfl rfl
    · exact kept

theorem sdcard_card (k : r.Kept c) :
    Meets Card.next (fun c e => c.Serves e ∧ r.NamesKept c e) r.sdcardTask c Kept := by
  unfold sdcardTask
  split
  · split
    · exact k
    · exact ⟨k.sound, k.mirror, k.rest, k.opening, nofun⟩
  · split
    · simp only [meets_bind, meets_pure]
      have saving : { r with sdSave := true }.Kept c := k.same rfl rfl rfl rfl
      exact (init_card saving).mono fun t d done => done.same rfl rfl rfl rfl
    · exact k

theorem turn_card (k : r.Kept c) :
    Meets Card.next (fun c e => c.Serves e ∧ r.NamesKept c e) (r.turn l) c Kept := by
  cases l with
  | record addr size type =>
    have kept (t : Saver) (h : t = r ∨ ∃ q, t = { r with pvid := { r.pvid with sbuf := q } }) : t.Kept c := by
      rcases h with rfl | ⟨q, rfl⟩
      · exact k
      · exact k.same rfl rfl rfl rfl
    apply kept
    unfold isrRecorddata muxerVidencBuffering
    split
    · split
      · exact .inl rfl
      · exact .inr ⟨_, rfl⟩
    · exact .inl rfl
  | encode mem =>
    have kept : { r with mem }.Kept c := k.same rfl rfl rfl rfl
    exact kept
  | process => exact process_card k
  | save on =>
    have kept : { r with bSdVidSave := on }.Kept c := k.same rfl rfl rfl rfl
    exact kept
  | fps n =>
    have kept : { r with nFps := n }.Kept c := k.same rfl rfl rfl rfl
    exact kept
  | sdcard => exact sdcard_card k
  | insert =>
    simp only [turn, sdcardReady, meets_bind, meets_pure]
    exact (init_card k).mono fun t d done => done.same rfl rfl rfl rfl

theorem boot_kept (h : r.Boot) (start : Finset (List UInt8)) : r.Kept ⟨start, none⟩ := by
  obtain ⟨block, list, _⟩ := h.list
  have unmounted {p : Prop} (mounted : r.mounted = true) : p := nomatch h.mounted.symm.trans mounted
  refine ⟨?_, unmounted, fun _ => h.place, fun _ => rfl, fun _ _ => rfl⟩
  rw [list]
  exact EncHeap.create_sound _ _

end runs

end Saver

theorem list_mirrors (start : Finset (List UInt8)) (h : Reach saver (ListOk start) x) :
    ListMirrors start x := by
  obtain ⟨c, hc, k⟩ := Session.reach (fun _ boot => Saver.boot_kept boot start)
    (fun _ _ _ k _ => Saver.turn_card k) h
  exact ⟨c, hc, k.mirror⟩

section runs

instance (c : Card) (e : Sigma FatCall.Answer) : Decidable (c.Serves e) := by
  unfold Card.Serves
  split <;> infer_instance

instance (r : Saver) (c : Card) (e : Sigma FatCall.Answer) : Decidable (r.NamesKept c e) := by
  unfold Saver.NamesKept
  split <;> infer_instance

instance (start : Finset (List UInt8)) (x : Session FatCall.Answer Saver) (l : SaverEvent × FatTrace) :
    Decidable (ListOk start x l) :=
  inferInstanceAs (Decidable (Session.Ok _ _ _ _ x l))

/-- `NOR_251231_235959.mp4` -/
def nameOld : List UInt8 :=
  [78, 79, 82, 95, 50, 53, 49, 50, 51, 49, 95, 50, 51, 53, 57, 53, 57, 46, 109, 112, 52]

/-- A card with a recorded file and another one is put in, and a recording started. -/
def cardRun : List (SaverEvent × FatTrace) :=
  [(.insert, [⟨.sdioCdDet, true⟩,
    ⟨.fOpendir, ([⟨nameOld, by decide, 1, false⟩, ⟨[120], by decide, 1, false⟩] : List FilInfo)⟩,
    ⟨.fUnlink [120], FResult.ok⟩]),
  (.save true, []),
  (.sdcard, [⟨.sdioCdDet, true⟩, ⟨.fOpendir, ([⟨nameOld, by decide, 1, false⟩] : List FilInfo)⟩]),
  (.process, [⟨.fatGetFreesize, (50 : UInt8)⟩]), (.process, []),
  (.process, [⟨.fileGetname, nameOne⟩, ⟨.fOpen nameOne.filename, FResult.ok⟩, ⟨.fExpand, FResult.ok⟩])]

theorem list_mirrors_cardRun : ∃ x, Reach saver (ListOk {nameOld, [120]}) x ∧
    x.state.filenamelist.usedsize = 2 ∧ ListMirrors {nameOld, [120]} x := by
  obtain ⟨x, hx, two⟩ := Session.exists_play (ListOk {nameOld, [120]}) reach_boot cardRun
    (fun x => x.state.filenamelist.usedsize == 2) (by decide +kernel)
  exact ⟨x, hx, beq_iff_eq.mp two, list_mirrors _ hx⟩

/-- At 25 fps a file is closed behind its first frame, and the next one opened in the same
second. -/
def secondRun : List (SaverEvent × FatTrace) :=
  [(.fps 25, [])] ++ startRun ++ [(.record 0 20 .h264I, [])] ++ turns 17 ++
    [(.process, [⟨.fWrite 65559, ((FResult.ok, 65559) : FResult × Nat)⟩])] ++ turns 3 ++
    [(.process, [⟨.fLseek, FResult.ok⟩]),
      (.process, [⟨.fWrite 65536, ((FResult.ok, 65536) : FResult × Nat)⟩]), (.process, [⟨.fClose, FResult.ok⟩]),
      (.process, [⟨.fatGetFreesize, (50 : UInt8)⟩]), (.process, []),
      (.process, [⟨.fileGetname, nameOne⟩, ⟨.fOpen nameOne.filename, FResult.ok⟩, ⟨.fExpand, FResult.ok⟩])]

def ServesOk : Session FatCall.Answer Saver → SaverEvent × FatTrace → Prop :=
  Session.Ok Lts.any Card.next (fun _ _ c e => c.Serves e) ⟨∅, none⟩

instance (x : Session FatCall.Answer Saver) (l : SaverEvent × FatTrace) : Decidable (ServesOk x l) :=
  inferInstanceAs (Decidable (Session.Ok _ _ _ _ x l))

/-- The name is listed twice. -/
theorem listed_twice : ∃ x, Reach saver ServesOk x ∧ ¬ ListMirrors ∅ x := by
  obtain ⟨x, hx, twice⟩ := Session.exists_play ServesOk reach_boot secondRun
    (fun x => (watch Card.next ⟨∅, none⟩ x.calls).any fun c =>
      x.state.mounted && x.state.filenamelist.usedsize == 2 && c.dir.card == 1) (by decide +kernel)
  refine ⟨x, hx, ?_⟩
  rintro ⟨c, hc, mirrors⟩
  rw [hc] at twice
  simp only [Option.any_some, Bool.and_eq_true, beq_iff_eq] at twice
  have counts := congrArg Multiset.card (mirrors twice.1.1)
  rw [EncHeap.listed, Multiset.card_map, EncHeap.names, Lib.Heap.card_contents, twice.1.2] at counts
  cases counts.trans twice.2

end runs

end En675.Videnc
