import NVMeVirt.ChannelModel
import NVMeVirt.Lib.Ring
import NVMeVirt.Lib.Timeline

/-!
# The channel model as a timeline

The ring of credits stands for an unbounded timeline of unit intervals: slot `j` from `head`
is the interval `j` after the clock, and `valid_len` bounds the intervals that have been
charged. A request takes its credits from the intervals of the window in order.
-/

namespace NVMeVirt
set_option autoImplicit false
open Outcome Timeline

/-- A call of `chmodel_request`, with the clock that it reads. -/
structure ChannelCall where
  curTime : Nat
  requestTime : Nat
  length : Nat
  deriving Repr, DecidableEq

namespace ChannelCall
variable (c : ChannelCall)

/-- The interval of the clock. -/
def now : Nat := c.curTime / unitTimeInterval
def start : Nat := c.requestTime / unitTimeInterval
def units : Nat := u32 (divRoundUp c.length unitXferSize)

/-- The request is neither in the past nor behind the end of the window. -/
def InWindow : Prop := c.curTime ≤ c.requestTime ∧ c.start < c.now + nrCreditEntries

instance : Decidable c.InWindow := inferInstanceAs (Decidable (_ ∧ _))

def charge (cap : Nat) (used : Nat → Nat) : Nat → Nat :=
  if c.InWindow then Timeline.charge cap (c.now + nrCreditEntries - c.start) c.start c.units used else used

end ChannelCall

def consumedFrom (cap : Nat) : List ChannelCall → (Nat → Nat) → Nat → Nat
  | [], used => used
  | c :: rest, used => consumedFrom cap rest (c.charge cap used)

def consumed (cap : Nat) (calls : List ChannelCall) : Nat → Nat := consumedFrom cap calls fun _ => 0

/-- The calls one after the other. -/
def runCalls : List ChannelCall → ChannelModel → Except Fault ChannelModel
  | [], ch => .ok ch
  | c :: rest, ch => do
    let r ← chmodelRequest c.curTime ch c.requestTime c.length
    runCalls rest r.1

/-- The clock does not run back, and never by `2^32` intervals forward between two calls; requests
are less than that ahead of it. -/
structure PacedCalls (calls : List ChannelCall) : Prop where
  clock : calls.IsChain fun c c' => c.curTime ≤ c'.curTime ∧ c'.now - c.now < 2^32
  ahead : ∀ c ∈ calls, c.start < c.now + 2^32

/-- The ring shows the timeline `used` from the clock on. -/
structure Shows (cap : Nat) (ch : ChannelModel) (used : Nat → Nat) : Prop where
  head_lt : ch.head < nrCreditEntries
  validLen_le : ch.validLen ≤ nrCreditEntries
  maxCredits : ch.maxCredits = cap
  commandCredits : ch.commandCredits = 0
  ring : ∀ j, j < nrCreditEntries →
    ch.availCredits ((ch.head + j) % nrCreditEntries) = cap - used (ch.curTime / unitTimeInterval + j)
  le : ∀ k, used k ≤ cap
  fresh : ∀ j, ch.validLen ≤ j → used (ch.curTime / unitTimeInterval + j) = 0

variable {cap : Nat} {ch : ChannelModel} {used : Nat → Nat}

theorem nrCreditEntries_pos : 0 < nrCreditEntries := by decide

theorem init_shows {bandwidth : Nat} (h : bandwidthToMaxCredits bandwidth ≤ 255) :
    Shows (bandwidthToMaxCredits bandwidth) (chmodelInit bandwidth) fun _ => 0 where
  head_lt := nrCreditEntries_pos
  validLen_le := Nat.zero_le _
  maxCredits := rfl
  commandCredits := rfl
  ring := by
    intro j _
    have hlt : ((chmodelInit bandwidth).head + j) % nrCreditEntries < nrCreditEntries :=
      Nat.mod_lt _ nrCreditEntries_pos
    change memsetCredits (fun _ => 0) 0 _ nrCreditEntries _ = _
    unfold memsetCredits
    rw [if_pos ⟨Nat.zero_le _, by omega⟩, Nat.mod_eq_of_lt (by omega), Nat.sub_zero]
  le := fun _ => Nat.zero_le _
  fresh := fun _ _ => rfl

/-- The slots left behind, refilled in one piece or in two. -/
def refill (a : Nat → Nat) (head value offs : Nat) : Nat → Nat :=
  if nrCreditEntries ≤ head + offs then
    memsetCredits (memsetCredits a head value (nrCreditEntries - head))
      0 value (offs - (nrCreditEntries - head))
  else memsetCredits a head value offs

theorem slot_eq {head j : Nat} (hhead : head < nrCreditEntries) (hj : j < nrCreditEntries) :
    (head + j) % nrCreditEntries =
      if head + j < nrCreditEntries then head + j else head + j - nrCreditEntries := by
  split
  · exact Nat.mod_eq_of_lt ‹_›
  · rw [Nat.mod_eq_sub_mod (by omega), Nat.mod_eq_of_lt (by omega)]

theorem refill_byte {a : Nat → Nat} {head value offs j : Nat} (hhead : head < nrCreditEntries)
    (hj : j < nrCreditEntries) : refill a head value offs ((head + j) % nrCreditEntries) =
      if j < offs then value % 2^8 else a ((head + j) % nrCreditEntries) := by
  rw [slot_eq hhead hj]
  unfold refill memsetCredits
  by_cases hwrap : nrCreditEntries ≤ head + offs
  · rw [if_pos hwrap]
    split_ifs <;> first | rfl | omega
  · rw [if_neg hwrap]
    split_ifs <;> first | rfl | omega

theorem refill_slot {a : Nat → Nat} {head value offs j : Nat} (hhead : head < nrCreditEntries)
    (hvalue : value ≤ 255) (hj : j < nrCreditEntries) :
    refill a head value offs ((head + j) % nrCreditEntries) =
      if j < offs then value else a ((head + j) % nrCreditEntries) := by
  have hbyte : value % 2^8 = value := Nat.mod_eq_of_lt (by omega)
  rw [refill_byte hhead hj, hbyte]

/-- The way of the head: as far as the clock has gone, or to the end of what has been charged. -/
def headOffs (ch : ChannelModel) (curTime : Nat) : Nat :=
  let offs := u32 (u64 (curTime / unitTimeInterval + 2^64 - ch.curTime / unitTimeInterval))
  if offs < ch.validLen then offs else ch.validLen

theorem chmodelAdvance_eq (ch : ChannelModel) (curTime : Nat) : chmodelAdvance ch curTime =
    { ch with
      availCredits := refill ch.availCredits ch.head ch.maxCredits (headOffs ch curTime)
      head := (ch.head + headOffs ch curTime) % nrCreditEntries
      curTime := curTime
      validLen := ch.validLen - headOffs ch curTime } := rfl

/-- How far the clock may go for `cur_time_offs` to be right. -/
def Pace (ch : ChannelModel) (curTime : Nat) : Prop :=
  ch.curTime ≤ curTime ∧
    (ch.validLen = 0 ∨ curTime / unitTimeInterval - ch.curTime / unitTimeInterval < 2^32)

theorem headOffs_eq {curTime : Nat} (hp : Pace ch curTime) :
    headOffs ch curTime =
      min (curTime / unitTimeInterval - ch.curTime / unitTimeInterval) ch.validLen := by
  obtain ⟨hle, hnear⟩ := hp
  have hdiv : ch.curTime / unitTimeInterval ≤ curTime / unitTimeInterval := Nat.div_le_div_right hle
  unfold headOffs
  dsimp only
  rcases hnear with hz | hnear
  · rw [hz, if_neg (Nat.not_lt_zero _), Nat.min_zero]
  · have hoffs : u32 (u64 (curTime / unitTimeInterval + 2^64 - ch.curTime / unitTimeInterval)) =
        curTime / unitTimeInterval - ch.curTime / unitTimeInterval := by
      have hsum : curTime / unitTimeInterval + 2^64 - ch.curTime / unitTimeInterval =
          curTime / unitTimeInterval - ch.curTime / unitTimeInterval + 2^64 := by omega
      unfold u32 u64
      rw [hsum, Nat.add_mod_right, Nat.mod_eq_of_lt (a := _ - _) (by omega), Nat.mod_eq_of_lt hnear]
    rw [hoffs]
    split <;> omega

/-- The slots left behind are those of intervals that come into the window at its end. -/
theorem Shows.advance (k : Shows cap ch used) (hcap : cap ≤ 255) {curTime : Nat} (hp : Pace ch curTime) :
    Shows cap (chmodelAdvance ch curTime) used := by
  have hoffs := headOffs_eq hp
  have hdiv : ch.curTime / unitTimeInterval ≤ curTime / unitTimeInterval := Nat.div_le_div_right hp.1
  have hhead := k.head_lt
  have hvalid := k.validLen_le
  -- an interval that has not been charged yet
  have hnew : ∀ j, ch.validLen ≤ headOffs ch curTime + j → used (curTime / unitTimeInterval + j) = 0 := by
    intro j h
    have hfresh := k.fresh (curTime / unitTimeInterval + j - ch.curTime / unitTimeInterval) (by omega)
    rwa [show ch.curTime / unitTimeInterval +
      (curTime / unitTimeInterval + j - ch.curTime / unitTimeInterval) = curTime / unitTimeInterval + j
      by omega] at hfresh
  rw [chmodelAdvance_eq]
  refine ⟨Nat.mod_lt _ nrCreditEntries_pos, ?_, k.maxCredits, k.commandCredits, ?_, k.le, ?_⟩
  · dsimp only
    omega
  · intro j hj
    dsimp only
    rw [Nat.mod_add_mod, Nat.add_assoc, k.maxCredits]
    by_cases hin : headOffs ch curTime + j < nrCreditEntries
    · rw [refill_slot hhead hcap hin, if_neg (by omega), k.ring _ hin]
      by_cases hold : ch.validLen ≤ headOffs ch curTime + j
      · rw [k.fresh _ hold, hnew j hold]
      · rw [show ch.curTime / unitTimeInterval + (headOffs ch curTime + j) = curTime / unitTimeInterval + j
          by omega]
    · have hwrap : (ch.head + (headOffs ch curTime + j)) % nrCreditEntries =
          (ch.head + (headOffs ch curTime + j - nrCreditEntries)) % nrCreditEntries := by
        rw [show ch.head + (headOffs ch curTime + j) =
          ch.head + (headOffs ch curTime + j - nrCreditEntries) + nrCreditEntries by omega, Nat.add_mod_right]
      rw [hwrap, refill_slot hhead hcap (by omega), if_pos (by omega), hnew j (by omega), Nat.sub_zero]
  · intro j hj
    dsimp only at hj ⊢
    exact hnew j (by omega)

theorem slot_inj {head j o : Nat} (hj : j < nrCreditEntries) (ho : o < nrCreditEntries)
    (h : (head + j) % nrCreditEntries = (head + o) % nrCreditEntries) : j = o := by
  rcases Nat.le_total j o with hle | hle
  · have := Ring.mod_inj (Nat.add_le_add_left hle head) (by omega) h
    omega
  · have := Ring.mod_inj (Nat.add_le_add_left hle head) (by omega) h.symm
    omega

/-- The loop of `chmodel_request` over the offsets from the clock on, without the ring. -/
def takeCredits : Nat → Nat → (Nat → Nat) → Nat → Nat → (Nat → Nat) × Nat × Nat
  | 0, o, b, _, delay => (b, o, delay)
  | fuel + 1, o, b, remaining, delay =>
    let consumed := if remaining ≤ b o then remaining else b o
    let b := Function.update b o (b o - consumed)
    let remaining := remaining - consumed
    if remaining ≠ 0 then
      if o + 1 ≠ nrCreditEntries then takeCredits fuel (o + 1) b remaining (delay + 1)
      else (b, o, delay)
    else (b, o, delay)

/-- The outcome `r` of the loop on a ring is the outcome `s` of the loop over the offsets. -/
structure OnWindow (head : Nat) (r s : (Nat → Nat) × Nat × Nat) : Prop where
  slots : ∀ j, j < nrCreditEntries → r.1 ((head + j) % nrCreditEntries) = s.1 j
  pos : r.2.1 = (head + s.2.1) % nrCreditEntries
  inside : s.2.1 < nrCreditEntries
  delay : r.2.2 = s.2.2

/-- Where the ring begins makes no difference to the loop. -/
theorem consumeCredits_window {head : Nat} (hhead : head < nrCreditEntries) (fuel : Nat) :
    ∀ (o : Nat) (a b : Nat → Nat) (n delay : Nat), o < nrCreditEntries →
    (∀ j, j < nrCreditEntries → a ((head + j) % nrCreditEntries) = b j) →
    OnWindow head (consumeCredits head fuel a ((head + o) % nrCreditEntries) n delay)
      (takeCredits fuel o b n delay) := by
  induction fuel with
  | zero => exact fun o a b n delay ho hring => ⟨hring, rfl, ho, rfl⟩
  | succ fuel ih =>
    intro o a b n delay ho hring
    unfold consumeCredits takeCredits
    dsimp only
    rw [hring o ho]
    generalize (if n ≤ b o then n else b o) = taken
    have hset : ∀ j, j < nrCreditEntries →
        Function.update a ((head + o) % nrCreditEntries) (b o - taken) ((head + j) % nrCreditEntries) =
          Function.update b o (b o - taken) j := by
      intro j hj
      by_cases hjo : j = o
      · subst hjo
        rw [Function.update_self, Function.update_self]
      · rw [Function.update_of_ne (fun h => hjo (slot_inj hj ho h)), Function.update_of_ne hjo, hring j hj]
    have hnext : ((head + o) % nrCreditEntries + 1) % nrCreditEntries =
        (head + (o + 1)) % nrCreditEntries := by
      rw [Nat.mod_add_mod, Nat.add_assoc]
    rw [hnext]
    by_cases hleft : n - taken = 0
    · rw [if_neg (by simpa using hleft), if_neg (by simpa using hleft)]
      exact ⟨hset, rfl, ho, rfl⟩
    rw [if_pos hleft, if_pos hleft]
    by_cases hfull : o + 1 = nrCreditEntries
    · -- the slot after the last one of the window is the head
      have hlast : (head + (o + 1)) % nrCreditEntries = head := by
        rw [hfull, Nat.add_mod_right, Nat.mod_eq_of_lt hhead]
      rw [if_neg (by simpa using hlast), if_neg (by simpa using hfull)]
      exact ⟨hset, rfl, ho, rfl⟩
    · have hne : (head + (o + 1)) % nrCreditEntries ≠ head := by
        intro h
        have hself : (head + 0) % nrCreditEntries = head := by rw [Nat.add_zero, Nat.mod_eq_of_lt hhead]
        exact Nat.succ_ne_zero o (slot_inj (by omega) nrCreditEntries_pos (h.trans hself.symm))
      rw [if_pos hne, if_pos hfull]
      exact ih (o + 1) _ _ (n - taken) (delay + 1) (by omega) hset

/-- The loop charges the timeline from offset `o` on and stops at the last offset that it used. -/
theorem takeCredits_charge {base : Nat} (fuel : Nat) :
    ∀ (o : Nat) (b used : Nat → Nat) (n delay : Nat), o < nrCreditEntries → nrCreditEntries - o ≤ fuel →
    (∀ j, j < nrCreditEntries → b j = cap - used (base + j)) →
    o ≤ (takeCredits fuel o b n delay).2.1 ∧
      (∀ j, j < nrCreditEntries → (takeCredits fuel o b n delay).1 j =
        cap - charge cap (nrCreditEntries - o) (base + o) n used (base + j)) ∧
      ∀ j, (takeCredits fuel o b n delay).2.1 < j →
        charge cap (nrCreditEntries - o) (base + o) n used (base + j) = used (base + j) := by
  induction fuel with
  | zero =>
    intro o b used n delay ho hfuel
    omega
  | succ fuel ih =>
    intro o b used n delay ho hfuel hb
    have hconsumed : (if n ≤ b o then n else b o) = taken cap (base + o) n used := by
      rw [hb o ho]
      unfold taken
      split <;> omega
    have hset : ∀ j, j < nrCreditEntries → Function.update b o (b o - taken cap (base + o) n used) j =
        cap - settle cap (base + o) n used (base + j) := by
      intro j hj
      by_cases hjo : j = o
      · subst hjo
        rw [Function.update_self, settle_self, hb j hj]
        omega
      · rw [Function.update_of_ne hjo, settle_ne (by omega), hb j hj]
    have hrest : nrCreditEntries - o = nrCreditEntries - (o + 1) + 1 := by omega
    have hbase : base + o + 1 = base + (o + 1) := Nat.add_assoc base o 1
    unfold takeCredits
    dsimp only
    rw [hconsumed, hrest, charge_succ]
    by_cases hleft : n - taken cap (base + o) n used = 0
    · -- the request is served
      rw [if_neg (by simpa using hleft), hleft, charge_none]
      exact ⟨Nat.le_refl o, hset, fun j hj => settle_ne (by dsimp only at hj; omega)⟩
    rw [if_pos hleft]
    by_cases hfull : o + 1 = nrCreditEntries
    · -- the whole window has been used up
      have hzero : nrCreditEntries - (o + 1) = 0 := by omega
      rw [if_neg (by simpa using hfull), hzero]
      exact ⟨Nat.le_refl o, hset, fun j hj => settle_ne (by dsimp only at hj; omega)⟩
    · rw [if_pos hfull, hbase]
      obtain ⟨hge, havail, hafter⟩ := ih (o + 1) _ _ (n - taken cap (base + o) n used) (delay + 1)
        (by omega) (by omega) hset
      refine ⟨by omega, havail, ?_⟩
      intro j hj
      rw [hafter j hj]
      exact settle_ne (by omega)

theorem slotsUpTo_slot {head o : Nat} (hhead : head < nrCreditEntries) (ho : o < nrCreditEntries) :
    slotsUpTo head ((head + o) % nrCreditEntries) = o + 1 := by
  rw [slot_eq hhead ho]
  unfold slotsUpTo
  split_ifs <;> omega

/-- Credits taken from offset `o` on are charged to the timeline from its interval on. -/
theorem Shows.consume (k : Shows cap ch used) {o n : Nat} (ho : o < nrCreditEntries)
    {r : (Nat → Nat) × Nat × Nat}
    (hr : r = consumeCredits ch.head nrCreditEntries ch.availCredits ((ch.head + o) % nrCreditEntries) n 0) :
    Shows cap
      { ch with
        availCredits := r.1
        validLen := if ch.validLen < slotsUpTo ch.head r.2.1 then slotsUpTo ch.head r.2.1 else ch.validLen }
      (Timeline.charge cap (nrCreditEntries - o) (ch.curTime / unitTimeInterval + o) n used) := by
  obtain ⟨b, hb⟩ : ∃ b : Nat → Nat, b = fun j => cap - used (ch.curTime / unitTimeInterval + j) := ⟨_, rfl⟩
  have hring : ∀ j, j < nrCreditEntries → ch.availCredits ((ch.head + j) % nrCreditEntries) = b j := by
    rw [hb]
    exact k.ring
  have hloop := consumeCredits_window k.head_lt nrCreditEntries o _ b n 0 ho hring
  obtain ⟨-, havail, hafter⟩ := takeCredits_charge nrCreditEntries o b used n 0 ho (Nat.sub_le _ _)
    (fun j _ => congrFun hb j)
  rw [← hr] at hloop
  generalize takeCredits nrCreditEntries o b n 0 = taken at hloop havail hafter
  have hslots : slotsUpTo ch.head r.2.1 = taken.2.1 + 1 := by
    rw [hloop.pos]
    exact slotsUpTo_slot k.head_lt hloop.inside
  have hinside := hloop.inside
  have hvalid := k.validLen_le
  refine ⟨k.head_lt, ?_, k.maxCredits, k.commandCredits, fun j hj => (hloop.slots j hj).trans (havail j hj),
    charge_le k.le, ?_⟩
  · dsimp only
    rw [hslots]
    split <;> omega
  · intro j hj
    dsimp only at hj
    rw [hslots] at hj
    have hboth : taken.2.1 < j ∧ ch.validLen ≤ j := by
      split at hj <;> omega
    exact (hafter j hboth.1).trans (k.fresh j hboth.2)

/-- A request returns, and the ring shows the timeline with its credits charged. -/
theorem Shows.request (k : Shows cap ch used) (hpos : 1 ≤ cap) (hcap : cap ≤ 255) (c : ChannelCall)
    (hp : Pace ch c.curTime) (hahead : c.start < c.now + 2^32) :
    ∃ r, chmodelRequest c.curTime ch c.requestTime c.length = .ok r ∧ r.1.curTime = c.curTime ∧
      Shows cap r.1 (c.charge cap used) := by
  have ka := k.advance hcap hp
  have htime : (chmodelAdvance ch c.curTime).curTime = c.curTime := rfl
  have huncharged : ¬ c.InWindow → Shows cap (chmodelAdvance ch c.curTime) (c.charge cap used) := by
    intro hout
    rw [ChannelCall.charge, if_neg hout]
    exact ka
  unfold chmodelRequest
  dsimp only
  rw [nvmevAssert_true ka.validLen_le, ok_bind]
  by_cases hpast : c.requestTime < c.curTime
  · rw [if_pos hpast]
    exact ⟨_, rfl, htime, huncharged fun hin => absurd hin.1 (Nat.not_le.mpr hpast)⟩
  have hdiv : c.now ≤ c.start := Nat.div_le_div_right (Nat.le_of_not_lt hpast)
  have hoffs : u32 (c.requestTime / unitTimeInterval - c.curTime / unitTimeInterval) = c.start - c.now := by
    have hlt : c.start - c.now < 2^32 := by omega
    exact Nat.mod_eq_of_lt hlt
  rw [if_neg hpast, hoffs]
  by_cases hfar : nrCreditEntries ≤ c.start - c.now
  · rw [if_pos hfar]
    exact ⟨_, rfl, htime, huncharged fun hin => absurd hin.2 (by omega)⟩
  have hin : c.InWindow := ⟨Nat.le_of_not_lt hpast, by omega⟩
  have hmax : (chmodelAdvance ch c.curTime).maxCredits ≠ 0 := by
    rw [ka.maxCredits]
    omega
  have hunits : u32 (u32 (divRoundUp c.length unitXferSize) * unitXferCredits +
      (chmodelAdvance ch c.curTime).commandCredits) = c.units := by
    rw [ka.commandCredits, Nat.add_zero, unitXferCredits, Nat.mul_one]
    exact Nat.mod_mod _ _
  rw [if_neg hfar, if_neg hmax, hunits]
  have hshows := ka.consume (n := c.units) (Nat.lt_of_not_le hfar) rfl
  have hwindow : nrCreditEntries - (c.start - c.now) = c.now + nrCreditEntries - c.start := by omega
  have hstart : c.now + (c.start - c.now) = c.start := by omega
  have hused : c.charge cap used = Timeline.charge cap (nrCreditEntries - (c.start - c.now))
      (c.now + (c.start - c.now)) c.units used := by
    rw [hwindow, hstart]
    exact if_pos hin
  refine ⟨_, rfl, htime, ?_⟩
  rw [hused]
  exact hshows

/-- The clock of the last call. -/
def lastClock : List ChannelCall → Nat → Nat
  | [], t => t
  | c :: rest, _ => lastClock rest c.curTime

theorem Shows.run (hpos : 1 ≤ cap) (hcap : cap ≤ 255) {calls : List ChannelCall} (hpaced : PacedCalls calls) :
    ∀ (ch : ChannelModel) (used : Nat → Nat), Shows cap ch used → (∀ c ∈ calls.head?, Pace ch c.curTime) →
    ∃ ch', runCalls calls ch = .ok ch' ∧ ch'.curTime = lastClock calls ch.curTime ∧
      Shows cap ch' (consumedFrom cap calls used) := by
  induction calls with
  | nil =>
    intro ch used k _
    exact ⟨ch, rfl, rfl, k⟩
  | cons c rest ih =>
    intro ch used k hp
    have hchain := List.isChain_cons.mp hpaced.clock
    have hrest : PacedCalls rest := ⟨hchain.2, fun c' hc' => hpaced.ahead c' (List.mem_cons_of_mem c hc')⟩
    obtain ⟨r, hr, htime, kr⟩ := k.request hpos hcap c (hp c rfl) (hpaced.ahead c List.mem_cons_self)
    obtain ⟨ch', hrun, hlast, k'⟩ := ih hrest r.1 _ kr (by
      intro c' hc'
      obtain ⟨hle, hnear⟩ := hchain.1 c' hc'
      rw [← htime] at hle
      refine ⟨hle, Or.inr ?_⟩
      rw [htime]
      exact hnear)
    rw [htime] at hlast
    refine ⟨ch', ?_, hlast, k'⟩
    rw [runCalls, hr, ok_bind]
    exact hrun

theorem consumedFrom_append (calls : List ChannelCall) (c : ChannelCall) (used : Nat → Nat) :
    consumedFrom cap (calls ++ [c]) used = c.charge cap (consumedFrom cap calls used) := by
  induction calls generalizing used with
  | nil => rfl
  | cons c' rest ih => exact ih (c'.charge cap used)

theorem ChannelCall.charge_le (c : ChannelCall) (h : ∀ k, used k ≤ cap) (k : Nat) :
    c.charge cap used k ≤ cap := by
  unfold ChannelCall.charge
  split
  · exact Timeline.charge_le h k
  · exact h k

theorem consumedFrom_le (calls : List ChannelCall) (h : ∀ k, used k ≤ cap) (k : Nat) :
    consumedFrom cap calls used k ≤ cap := by
  induction calls generalizing used with
  | nil => exact h k
  | cons c rest ih => exact ih (c.charge_le h)

/-- The call takes its units from the earliest intervals of the window from its own on, or none. -/
def ChargedGreedily (cap : Nat) (before : List ChannelCall) (c : ChannelCall) : Prop :=
  if c.InWindow then
    Greedy cap c.start (c.now + nrCreditEntries) c.units (consumed cap before) (consumed cap (before ++ [c]))
  else consumed cap (before ++ [c]) = consumed cap before

theorem chargedGreedily (before : List ChannelCall) (c : ChannelCall) : ChargedGreedily cap before c := by
  have hle : ∀ k, consumed cap before k ≤ cap := consumedFrom_le before fun _ => Nat.zero_le _
  have hafter : consumed cap (before ++ [c]) = c.charge cap (consumed cap before) :=
    consumedFrom_append before c _
  unfold ChargedGreedily
  rw [hafter, ChannelCall.charge]
  split
  · rename_i hin
    have hstop : c.start + (c.now + nrCreditEntries - c.start) = c.now + nrCreditEntries :=
      Nat.add_sub_of_le (Nat.le_of_lt hin.2)
    have hg := charge_greedy hle (c.now + nrCreditEntries - c.start) c.start c.units
    rwa [hstop] at hg
  · rfl

/-- After any paced sequence of calls, none of which fails, each slot of the ring holds what the
timeline has left of its interval; no interval is overcharged, and each call charged greedily. -/
theorem ring_refines_timeline {bandwidth : Nat} (hpos : 1 ≤ bandwidthToMaxCredits bandwidth)
    (hcap : bandwidthToMaxCredits bandwidth ≤ 255) {calls : List ChannelCall} (hpaced : PacedCalls calls) :
    ∃ ch, runCalls calls (chmodelInit bandwidth) = .ok ch ∧
      (∀ j, j < nrCreditEntries → ch.availCredits ((ch.head + j) % nrCreditEntries) +
        consumed (bandwidthToMaxCredits bandwidth) calls (lastClock calls 0 / unitTimeInterval + j) =
          bandwidthToMaxCredits bandwidth) ∧
      (∀ k, consumed (bandwidthToMaxCredits bandwidth) calls k ≤ bandwidthToMaxCredits bandwidth) ∧
      ∀ before c after, calls = before ++ c :: after →
        ChargedGreedily (bandwidthToMaxCredits bandwidth) before c := by
  obtain ⟨ch, hrun, hlast, k⟩ := Shows.run hpos hcap hpaced _ _ (init_shows hcap)
    (fun c _ => ⟨Nat.zero_le c.curTime, Or.inl rfl⟩)
  refine ⟨ch, hrun, ?_, k.le, fun before c after _ => chargedGreedily before c⟩
  intro j hj
  have hclock : lastClock calls 0 = ch.curTime := hlast.symm
  rw [k.ring j hj, hclock]
  exact Nat.sub_add_cancel (k.le _)

/-- Two requests of 4 KiB, the second one for a later interval than the clock's. -/
theorem ring_refines_timeline_two : ∃ ch,
    runCalls [⟨0, 0, 4096⟩, ⟨5000, 9000, 4096⟩] (chmodelInit 800) = .ok ch ∧
    ch.availCredits ((ch.head + 1) % nrCreditEntries) + consumed 26 [⟨0, 0, 4096⟩, ⟨5000, 9000, 4096⟩] 2 = 26 := by
  have hcap : bandwidthToMaxCredits 800 = 26 := by decide
  obtain ⟨ch, hrun, hring, -⟩ := ring_refines_timeline (by rw [hcap]; decide) (by rw [hcap]; decide)
    (show PacedCalls [⟨0, 0, 4096⟩, ⟨5000, 9000, 4096⟩] from ⟨by decide, by decide⟩)
  rw [hcap] at hring
  exact ⟨ch, hrun, hring 1 (by decide)⟩

end NVMeVirt
