import En675.Lib.Tally
import En675.Lib.Transition
import En675.Rtsp.Define

/-! The slots of the server: `rtspd_socket_server` admits connections while the tasks of the
clients close theirs.  `client_count++` and `client_count--` are a load and a store each. -/

namespace En675.Rtsp

open Lib

/-- `RTSP_info_MAX`. -/
def rtspInfoMax : Nat := 20

theorem rtspInfoMax_pos : 0 < rtspInfoMax := by decide

abbrev Slot := Fin rtspInfoMax

/-- Where the server task is. -/
inductive ServerPc
  | accept
  /-- `rtspd_socket_client_new` looks at slot `i`. -/
  | scan (i : Nat)
  /-- The slot is taken, `client_count` is not raised yet. -/
  | opening (i : Slot)
  | loaded (i : Slot) (count : Int)
  | create (i : Slot)
  deriving DecidableEq, Repr

/-- Where the task of a slot is, from `lwip_close` on in `rtspd_client_close`. -/
inductive ClientPc
  | none
  | serving
  | closed
  | loaded (count : Int)
  /-- `client_count` is lowered, the slot is not cleared yet. -/
  | counted
  deriving DecidableEq, Repr

/-- `rtspd_socket_client_new` has taken a slot and not counted it. -/
def ServerPc.opens : ServerPc → Bool
  | .opening _ | .loaded _ _ => true
  | _ => false

/-- The slot the server task is filling. -/
def ServerPc.slot : ServerPc → Option Slot
  | .opening i | .loaded i _ | .create i => some i
  | _ => none

def ClientPc.isCounted : ClientPc → Bool
  | .counted => true
  | _ => false

structure Server where
  valid : Slot → Bool
  task : Slot → ClientPc
  count : Int
  pc : ServerPc
  /-- Accepted sockets that no task serves and nothing closes. -/
  orphans : Nat

namespace Server

def setTask (s : Server) (i : Slot) (c : ClientPc) : Server :=
  { s with task := Function.update s.task i c }

section fields

variable (s : Server) (i j : Slot) (c : ClientPc)

@[simp] theorem setTask_self : (s.setTask i c).task i = c := Function.update_self _ _ _

theorem setTask_of_ne (h : j ≠ i) : (s.setTask i c).task j = s.task j := Function.update_of_ne h _ _

@[simp] theorem setTask_valid : (s.setTask i c).valid = s.valid := rfl

@[simp] theorem setTask_count : (s.setTask i c).count = s.count := rfl

@[simp] theorem setTask_pc : (s.setTask i c).pc = s.pc := rfl

end fields

inductive Label
  | accept | scan | load | store | create
  | close (i : Slot) | loadDown (i : Slot) | storeDown (i : Slot) | clear (i : Slot)

inductive Step : Server → Label → Server → Prop
  | refuse : s.pc = .accept → (rtspInfoMax : Int) ≤ s.count → Step s .accept s
  | welcome : s.pc = .accept → s.count < (rtspInfoMax : Int) → Step s .accept { s with pc := .scan 0 }
  | pass {i : Slot} : s.pc = .scan i → s.valid i = true → Step s .scan { s with pc := .scan (i + 1) }
  | take {i : Slot} : s.pc = .scan i → s.valid i = false →
      Step s .scan { s with valid := Function.update s.valid i true, pc := .opening i }
  | orphan : s.pc = .scan rtspInfoMax → Step s .scan { s with orphans := s.orphans + 1, pc := .accept }
  | load : s.pc = .opening i → Step s .load { s with pc := .loaded i s.count }
  | store : s.pc = .loaded i c → Step s .store { s with count := c + 1, pc := .create i }
  | create : s.pc = .create i →
      Step s .create { s.setTask i .serving with pc := .accept }
  | close : s.task i = .serving → Step s (.close i) (s.setTask i .closed)
  | loadDown : s.task i = .closed →
      Step s (.loadDown i) (s.setTask i (.loaded s.count))
  | storeDown : s.task i = .loaded c →
      Step s (.storeDown i) { s.setTask i .counted with count := c - 1 }
  | clear : s.task i = .counted →
      Step s (.clear i) { s.setTask i .none with valid := Function.update s.valid i false }

/-- The slots with `valid != 0`. -/
def validCount (s : Server) : Nat := tally id s.valid

/-- The slots between the two steps of closing. -/
def between (s : Server) : Nat := tally ClientPc.isCounted s.task

end Server

def server : Lts Server Server.Label where
  init s := s = ⟨fun _ => false, fun _ => .none, 0, .accept, 0⟩
  step := Server.Step

namespace Server

/-- No update of `client_count` starts inside another one. -/
def Apart (s : Server) : Label → Prop
  | .load | .loadDown _ => (∀ i c, s.pc ≠ .loaded i c) ∧ ∀ i c, s.task i ≠ .loaded c
  | _ => True

/-- A connection is admitted only while a slot is left, those being closed not counted. -/
def AdmitsFree (s : Server) : Label → Prop
  | .accept => s.count < (rtspInfoMax : Int) → s.count + s.between < (rtspInfoMax : Int)
  | _ => True

structure Inv (s : Server) : Prop where
  sum : s.count + s.between + s.pc.opens.toNat = s.validCount
  live : ∀ i, s.task i ≠ .none → s.valid i = true
  fresh : ∀ i, s.pc.slot = some i → s.task i = .none ∧ s.valid i = true
  /-- A value that has been loaded is still the count, and no other update is under way. -/
  up : ∀ i c, s.pc = .loaded i c → c = s.count ∧ ∀ j c', s.task j ≠ .loaded c'
  down : ∀ j c, s.task j = .loaded c → c = s.count ∧ ∀ k c', s.task k = .loaded c' → k = j

theorem between_update (s : Server) (i : Slot) (c : ClientPc) :
    (s.setTask i c).between + (s.task i).isCounted.toNat = s.between + c.isCounted.toNat :=
  tally_update _ _ _ _

theorem valid_update (s : Server) (i : Slot) (b : Bool) :
    tally id (Function.update s.valid i b) + (s.valid i).toNat = s.validCount + b.toNat :=
  tally_update _ _ _ _

variable {s t : Server} {l : Label}

theorem inv_init (h : server.init s) : Inv s := by
  cases h
  refine ⟨?_, fun i h => absurd rfl h, nofun, nofun, nofun⟩
  rw [between, validCount, tally_const _ _ rfl, tally_const _ _ rfl]
  rfl

/-- Only the task that is set can have come to load. -/
theorem loaded_of_setTask {i j : Slot} {c : ClientPc} (h : ∀ n, c ≠ .loaded n)
    (hj : (s.setTask i c).task j = .loaded n) : s.task j = .loaded n ∧ j ≠ i := by
  by_cases hji : j = i
  · rw [hji, setTask_self] at hj
    exact absurd hj (h n)
  · exact ⟨(setTask_of_ne s i j c hji).symm.trans hj, hji⟩

/-- A move of the server task alone. -/
theorem Inv.server (inv : Inv s) {pc : ServerPc} (opens : pc.opens = s.pc.opens)
    (fresh : ∀ i, pc.slot = some i → s.task i = .none ∧ s.valid i = true)
    (up : ∀ i c, pc = .loaded i c → c = s.count ∧ ∀ j c', s.task j ≠ .loaded c') {orphans : Nat} :
    Inv { s with pc, orphans } where
  sum := by
    have sum := inv.sum
    rw [← opens] at sum
    exact sum
  live := inv.live
  fresh := fresh
  up := up
  down := inv.down

/-- A task that is not done with its slot goes on, without a store. -/
theorem Inv.client (inv : Inv s) {i : Slot} {c : ClientPc} (some_task : s.task i ≠ .none)
    (before : s.task i ≠ .counted) (after : c ≠ .counted)
    (loads : ∀ n, c = .loaded n → n = s.count ∧ (∀ j c', s.pc ≠ .loaded j c') ∧ ∀ j c', s.task j ≠ .loaded c') :
    Inv (s.setTask i c) := by
  have uncounted {c : ClientPc} (h : c ≠ .counted) : c.isCounted = false := by
    cases c with
    | counted => exact absurd rfl h
    | _ => rfl
  have live := inv.live i some_task
  constructor
  · have moved := between_update s i c
    rw [uncounted before, uncounted after, Bool.toNat_false, Nat.add_zero, Nat.add_zero] at moved
    have sum := inv.sum
    rw [← moved] at sum
    exact sum
  · intro j hj
    by_cases h : j = i
    · exact h ▸ live
    · rw [setTask_of_ne s i j c h] at hj
      exact inv.live j hj
  · intro j hj
    have fresh := inv.fresh j hj
    by_cases h : j = i
    · exact absurd (h ▸ fresh.1) some_task
    · exact ⟨(setTask_of_ne s i j c h).trans fresh.1, fresh.2⟩
  · intro j n hj
    refine ⟨(inv.up j n hj).1, fun k n' hk => ?_⟩
    by_cases h : k = i
    · rw [h, setTask_self] at hk
      exact (loads n' hk).2.1 j n hj
    · rw [setTask_of_ne s i k c h] at hk
      exact (inv.up j n hj).2 k n' hk
  · intro j n hj
    by_cases h : j = i
    · rw [h, setTask_self] at hj
      refine ⟨(loads n hj).1, fun k n' hk => ?_⟩
      by_cases hki : k = i
      · exact hki.trans h.symm
      · rw [setTask_of_ne s i k c hki] at hk
        exact absurd hk ((loads n hj).2.2 k n')
    · rw [setTask_of_ne s i j c h] at hj
      refine ⟨(inv.down j n hj).1, fun k n' hk => ?_⟩
      by_cases hki : k = i
      · rw [hki, setTask_self] at hk
        exact absurd hj ((loads n' hk).2.2 j n)
      · rw [setTask_of_ne s i k c hki] at hk
        exact (inv.down j n hj).2 k n' hk

theorem no_slot {pc : ServerPc} (h : pc.slot = none) (i : Slot) (hi : pc.slot = some i) :
    s.task i = .none ∧ s.valid i = true := by
  rw [h] at hi
  cases hi

theorem no_load {pc : ServerPc} (h : ∀ i c, pc ≠ .loaded i c) (i : Slot) (c : Int) (hi : pc = .loaded i c) :
    c = s.count ∧ ∀ j c', s.task j ≠ .loaded c' := absurd hi (h i c)

theorem inv_step (inv : Inv s) (apart : Apart s l) (h : server.step s l t) : Inv t := by
  cases h with
  | refuse => exact inv
  | welcome hp => exact inv.server (by rw [hp]; rfl) (no_slot rfl) (no_load (by simp))
  | pass hp hv => exact inv.server (by rw [hp]; rfl) (no_slot rfl) (no_load (by simp))
  | take hp hv =>
    rename_i i
    have idle : s.task i = .none := by
      by_contra h
      rw [inv.live i h] at hv
      cases hv
    refine ⟨?_, fun j hj => ?_, fun j hj => ?_, fun _ _ => nofun, inv.down⟩
    · have taken := valid_update s i true
      have sum := inv.sum
      rw [hv] at taken
      rw [hp] at sum
      change s.count + s.between + ((true.toNat : Nat) : Int) = (tally id (Function.update s.valid i true) : Int)
      simp only [ServerPc.opens, Bool.toNat_false, Bool.toNat_true] at sum taken ⊢
      omega
    · by_cases h : j = i
      · rw [h]
        exact Function.update_self _ _ _
      · exact (Function.update_of_ne h _ _).trans (inv.live j hj)
    · obtain rfl := Option.some.inj hj
      exact ⟨idle, Function.update_self _ _ _⟩
  | orphan hp => exact inv.server (by rw [hp]; rfl) (no_slot rfl) (no_load (by simp))
  | load hp =>
    refine inv.server (by rw [hp]; rfl) (fun j hj => inv.fresh j ?_) fun j c hc => ?_
    · rw [hp]
      exact hj
    · cases hc
      exact ⟨rfl, apart.2⟩
  | store hp =>
    obtain ⟨rfl, none⟩ := inv.up _ _ hp
    refine ⟨?_, inv.live, fun j hj => inv.fresh j ?_, fun _ _ => nofun, fun j n hj => absurd hj (none j n)⟩
    · have sum := inv.sum
      rw [hp] at sum
      change s.count + 1 + s.between + ((false.toNat : Nat) : Int) = s.validCount
      simp only [ServerPc.opens, Bool.toNat_false, Bool.toNat_true] at sum ⊢
      omega
    · rw [hp]
      exact hj
  | create hp =>
    rename_i i
    obtain ⟨idle, taken⟩ := inv.fresh i (by rw [hp]; rfl)
    have moved := between_update s i .serving
    refine ⟨?_, fun j hj => ?_, no_slot rfl, fun _ _ => nofun, fun j n hj => ?_⟩
    · have sum := inv.sum
      rw [hp] at sum
      rw [idle] at moved
      change s.count + (s.setTask i .serving).between + ((false.toNat : Nat) : Int) = s.validCount
      simp only [ServerPc.opens, ClientPc.isCounted, Bool.toNat_false] at sum moved ⊢
      omega
    · by_cases h : j = i
      · exact h ▸ taken
      · exact inv.live j fun hn => hj ((setTask_of_ne s i j _ h).trans hn)
    · obtain ⟨before, _⟩ := loaded_of_setTask (by simp) hj
      exact ⟨(inv.down j n before).1, fun k n' hk =>
        (inv.down j n before).2 k n' (loaded_of_setTask (by simp) hk).1⟩
  | close ht => exact inv.client (by rw [ht]; nofun) (by rw [ht]; nofun) nofun fun _ => nofun
  | loadDown ht =>
    refine inv.client (by rw [ht]; nofun) (by rw [ht]; nofun) nofun fun n hn => ?_
    cases hn
    exact ⟨rfl, apart⟩
  | storeDown ht =>
    rename_i i c
    obtain ⟨rfl, single⟩ := inv.down i c ht
    have live := inv.live i (by rw [ht]; nofun)
    have moved := between_update s i .counted
    have alone (j : Slot) (n : Int) : (s.setTask i .counted).task j ≠ .loaded n := fun hj => by
      obtain ⟨before, other⟩ := loaded_of_setTask (by simp) hj
      exact other (single j n before)
    refine ⟨?_, fun j hj => ?_, fun j hj => ?_, fun j n hp => ?_, fun j n hj => absurd hj (alone j n)⟩
    · have sum := inv.sum
      rw [ht] at moved
      change s.count - 1 + (s.setTask i .counted).between + s.pc.opens.toNat = s.validCount
      simp only [ClientPc.isCounted, Bool.toNat_false, Bool.toNat_true] at moved
      omega
    · by_cases h : j = i
      · exact h ▸ live
      · exact inv.live j fun hn => hj ((setTask_of_ne s i j _ h).trans hn)
    · obtain ⟨idle, taken⟩ := inv.fresh j hj
      have other : j ≠ i := by
        rintro rfl
        rw [ht] at idle
        cases idle
      exact ⟨(setTask_of_ne s i j _ other).trans idle, taken⟩
    · exact absurd ht ((inv.up j n hp).2 i s.count)
  | clear ht =>
    rename_i i
    have live := inv.live i (by rw [ht]; nofun)
    have moved := between_update s i .none
    have cleared := valid_update s i false
    refine ⟨?_, fun j hj => ?_, fun j hj => ?_, fun j n hp => ?_, fun j n hj => ?_⟩
    · have sum := inv.sum
      rw [ht] at moved
      rw [live] at cleared
      change s.count + (s.setTask i .none).between + s.pc.opens.toNat =
        (tally id (Function.update s.valid i false) : Int)
      simp only [ClientPc.isCounted, Bool.toNat_false, Bool.toNat_true] at moved cleared
      omega
    · have other : j ≠ i := by
        rintro rfl
        exact hj (setTask_self s j _)
      exact (Function.update_of_ne other _ _).trans
        (inv.live j fun hn => hj ((setTask_of_ne s i j _ other).trans hn))
    · obtain ⟨idle, taken⟩ := inv.fresh j hj
      have other : j ≠ i := by
        rintro rfl
        rw [ht] at idle
        cases idle
      exact ⟨(setTask_of_ne s i j _ other).trans idle, (Function.update_of_ne other _ _).trans taken⟩
    · exact ⟨(inv.up j n hp).1, fun k n' hk => (inv.up j n hp).2 k n' (loaded_of_setTask (by simp) hk).1⟩
    · obtain ⟨before, _⟩ := loaded_of_setTask (by simp) hj
      exact ⟨(inv.down j n before).1, fun k n' hk =>
        (inv.down j n before).2 k n' (loaded_of_setTask (by simp) hk).1⟩

theorem server_inv : server.Inductive Apart Inv := ⟨inv_init, inv_step⟩

/-- While a free slot is looked for, there is one from the scan on. -/
structure Scans (s : Server) : Prop where
  served : s.orphans = 0
  ahead : ∀ k, s.pc = .scan k → ∃ i : Slot, k ≤ i ∧ s.valid i = false

theorem free_slot (inv : Inv s) (hp : s.pc.opens = false) :
    (∃ i, s.valid i = false) ↔ s.count + s.between < (rtspInfoMax : Int) := by
  have sum := inv.sum
  rw [hp, Bool.toNat_false, Nat.cast_zero, add_zero] at sum
  have free : tally id s.valid < Fintype.card Slot ↔ ∃ i, id (s.valid i) = false := tally_lt_card
  rw [Fintype.card_fin] at free
  rw [sum, Nat.cast_lt, validCount, free]
  rfl

theorem scans_step (inv : Inv s) (scans : Scans s) (free : AdmitsFree s l) (h : server.step s l t) : Scans t := by
  cases h with
  | refuse => exact scans
  | welcome hp room =>
    refine ⟨scans.served, fun k hk => ?_⟩
    cases hk
    obtain ⟨i, hi⟩ := (free_slot inv (by rw [hp]; rfl)).mpr (free room)
    exact ⟨i, Nat.zero_le _, hi⟩
  | pass hp hv =>
    rename_i i
    refine ⟨scans.served, fun k hk => ?_⟩
    cases hk
    obtain ⟨j, hj, hf⟩ := scans.ahead _ hp
    refine ⟨j, Nat.lt_of_le_of_ne hj fun he => ?_, hf⟩
    rw [Fin.ext he, hf] at hv
    cases hv
  | take => exact ⟨scans.served, fun k hk => by cases hk⟩
  | orphan hp =>
    obtain ⟨j, hj, _⟩ := scans.ahead _ hp
    exact absurd j.isLt (Nat.not_lt.mpr hj)
  | load => exact ⟨scans.served, fun k hk => by cases hk⟩
  | store => exact ⟨scans.served, fun k hk => by cases hk⟩
  | create => exact ⟨scans.served, fun k hk => by cases hk⟩
  | close => exact ⟨scans.served, scans.ahead⟩
  | loadDown => exact ⟨scans.served, scans.ahead⟩
  | storeDown => exact ⟨scans.served, scans.ahead⟩
  | clear =>
    rename_i i _
    refine ⟨scans.served, fun k hk => ?_⟩
    obtain ⟨j, hj, hf⟩ := scans.ahead k hk
    refine ⟨j, hj, ?_⟩
    by_cases h : j = i
    · rw [h]
      exact Function.update_self _ _ _
    · exact (Function.update_of_ne h _ _).trans hf

/-- As long as the updates of `client_count` stay apart: the count is what it should be exactly when
no slot is half closed or half opened, a free slot exists for an admitted connection exactly when
the slots being closed leave one, and no socket is left alone if every admission finds one. -/
theorem slot_accounting (s : Server) (r : Reach server Apart s) :
    (s.count = s.validCount + s.between ↔ s.between = 0 ∧ s.pc.opens = false) ∧
    (s.pc = .accept → ((∃ i, s.valid i = false) ↔ s.count + s.between < (rtspInfoMax : Int))) ∧
    (Reach server (fun s l => Apart s l ∧ AdmitsFree s l) s → s.orphans = 0) := by
  have inv := server_inv.reach r
  refine ⟨?_, fun hp => free_slot inv (by rw [hp]; rfl), fun r => ?_⟩
  · have sum := inv.sum
    cases hp : s.pc.opens with
    | true =>
      rw [hp, Bool.toNat_true] at sum
      exact iff_of_false (by omega) fun h => absurd h.2 nofun
    | false =>
      rw [hp, Bool.toNat_false] at sum
      constructor
      · exact fun _ => ⟨by omega, rfl⟩
      · exact fun h => by omega
  · have both : server.Inductive (fun s l => Apart s l ∧ AdmitsFree s l) Inv :=
      ⟨inv_init, fun inv ok h => inv_step inv ok.1 h⟩
    have scans : Scans s := Lts.Inductive.reach_of both
      (fun h => by cases h; exact ⟨rfl, fun k hk => by cases hk⟩)
      (fun inv scans ok h => scans_step inv scans ok.2 h) r
    exact scans.served

section sample

/-- The first `k` slots are served, the others are free. -/
def full (k : Nat) : Server :=
  ⟨fun i => i.val < k, fun i => if i.val < k then .serving else .none, k, .accept, 0⟩

def first : Slot := ⟨0, by decide⟩

theorem reach_step (r : Reach server Apart s) (h : Step s l t) (apart : Apart s l) : Reach server Apart t :=
  r.step apart h

theorem scan_reach (r : Reach server Apart { s with pc := .scan 0 }) (k : Nat) (hk : k ≤ rtspInfoMax)
    (taken : ∀ i : Slot, i.val < k → s.valid i = true) : Reach server Apart { s with pc := .scan k } := by
  induction k with
  | zero => exact r
  | succ k ih =>
    have behind := ih (Nat.le_of_succ_le hk) fun i hi => taken i (Nat.lt_succ_of_lt hi)
    exact reach_step behind (.pass (i := ⟨k, hk⟩) rfl (taken ⟨k, hk⟩ (Nat.lt_succ_self k))) trivial

theorem full_task (k : Nat) (i : Slot) (c : Int) : (full k).task i ≠ .loaded c := by
  simp only [full]
  split <;> nofun

theorem full_add_one (k : Slot) : (full (k + 1)).valid = Function.update (full k).valid k true ∧
    (full (k + 1)).task = Function.update (full k).task k .serving := by
  constructor
  · funext i
    by_cases h : i = k
    · rw [h, Function.update_self]
      exact decide_eq_true (Nat.lt_succ_self _)
    · have other : i.val ≠ k.val := fun he => h (Fin.ext he)
      rw [Function.update_of_ne h]
      exact decide_eq_decide.mpr (by omega)
  · funext i
    by_cases h : i = k
    · rw [h, Function.update_self]
      exact if_pos (Nat.lt_succ_self _)
    · have other : i.val ≠ k.val := fun he => h (Fin.ext he)
      rw [Function.update_of_ne h]
      simp only [full]
      exact if_congr (by omega) rfl rfl

/-- One more connection. -/
theorem full_succ (k : Slot) (r : Reach server Apart (full k)) : Reach server Apart (full (k + 1)) := by
  have admitted := reach_step r (.welcome rfl (Nat.cast_lt.mpr k.isLt)) trivial
  have scanned := scan_reach admitted k k.isLt.le fun i hi => decide_eq_true hi
  have taken := reach_step scanned (.take rfl (decide_eq_false (lt_irrefl _))) trivial
  have opened := reach_step taken (.load rfl) ⟨by simp, full_task k⟩
  have done := reach_step (reach_step opened (.store rfl) trivial) (.create rfl) trivial
  have same : full (k + 1) = ⟨Function.update (full k).valid k true, Function.update (full k).task k .serving,
      k + 1, .accept, 0⟩ := by
    rw [← (full_add_one k).1, ← (full_add_one k).2]
    rfl
  rw [same]
  exact done

theorem full_reach : Reach server Apart (full rtspInfoMax) := by
  have all (k : Nat) (hk : k ≤ rtspInfoMax) : Reach server Apart (full k) := by
    induction k with
    | zero => exact .init (by simp [server, full])
    | succ k ih => exact full_succ ⟨k, hk⟩ (ih (Nat.le_of_succ_le hk))
  exact all _ le_rfl

theorem slot_accounting_full : (full rtspInfoMax).count = (full rtspInfoMax).validCount + (full rtspInfoMax).between ∧
    ¬ ∃ i, (full rtspInfoMax).valid i = false := by
  have accounting := slot_accounting _ full_reach
  have still : (full rtspInfoMax).between = 0 := by decide
  refine ⟨accounting.1.mpr ⟨still, rfl⟩, fun h => ?_⟩
  have room := (accounting.2.1 rfl).mp h
  rw [still] at room
  exact absurd room (by decide)

/-- All slots are served, the first is being closed, and a connection arrives: its socket is left. -/
theorem slot_leak : ∃ s, Reach server Apart s ∧ s.orphans = 1 := by
  have closed := reach_step full_reach (.close (i := first) rfl) trivial
  have loads : Apart ((full rtspInfoMax).setTask first .closed) (.loadDown first) := by
    refine ⟨by simp [full], fun i c hi => ?_⟩
    exact full_task rtspInfoMax i c (loaded_of_setTask (by simp) hi).1
  have loaded := reach_step closed (.loadDown (setTask_self _ _ _)) loads
  have counted := reach_step loaded (.storeDown (setTask_self _ _ _)) trivial
  have admitted := reach_step counted (.welcome rfl (by decide)) trivial
  have scanned := scan_reach admitted rtspInfoMax le_rfl fun i hi => decide_eq_true hi
  exact ⟨_, reach_step scanned (.orphan rfl) trivial, rfl⟩

end sample

end Server

end En675.Rtsp
