import NVMeVirt.ConvConsistency

/-!
# The NAND commands of a read

`conv_read` gathers logical pages that lie in one flash page into one NAND command, one partition
after the other. The commands account for the mapped pages of the range: `groups` below are the
logical pages of each command.
-/

namespace NVMeVirt
set_option autoImplicit false
open Outcome

variable {clk : Nat → Nat} {spp : SsdParams} {ns ns' : ConvNs}

/-- `convRead` with the commands that it issues, each with its partition. -/
def convReadLogged (clk : Nat → Nat) (spp : SsdParams) (ns : ConvNs) (req : NvmevRequest) :
    Except Fault (Option (ConvNs × NvmevResult × List (Nat × NandCmd))) := do
  let first := startLpn spp req.cmd
  let last := endLpn spp req.cmd
  if ns.nrParts = 0 then .error .divideError
  if spp.ttPgs ≤ last / ns.nrParts then return none
  let lat := if lbaToByte (nrLba req.cmd) ≤ kb 4 * ns.nrParts then spp.fw4kbRdLat else spp.fwRdLat
  let stime := u64 (req.nsecsStart + lat)
  let (ns, nsecsLatest, log) ← upto (fun i (ns, nsecsLatest, log) =>
    if first + i ≤ last then do
      let part := (first + i) % ns.nrParts
      let (ns, nsecsLatest, issued) ← readPart clk spp ns stime (first + i) last nsecsLatest
      return (ns, nsecsLatest, log ++ issued.map (Prod.mk part))
    else return (ns, nsecsLatest, log)) ns.nrParts (ns, req.nsecsStart, [])
  return some (ns, ⟨nvmeScSuccess, nsecsLatest⟩, log)

theorem convReadLogged_fst (clk : Nat → Nat) (spp : SsdParams) (ns : ConvNs) (req : NvmevRequest) :
    (convReadLogged clk spp ns req).map (Option.map (fun r => (r.1, r.2.1))) = convRead clk spp ns req := by
  unfold convReadLogged convRead
  dsimp only
  split
  · rfl
  split
  · rfl
  rw [← upto_map (fun t : ConvNs × Nat × List (Nat × NandCmd) => (t.1, t.2.1)) ?_ ns.nrParts
    (ns, req.nsecsStart, [])]
  · cases upto _ ns.nrParts (ns, req.nsecsStart, ([] : List (Nat × NandCmd))) with
    | ok t => rfl
    | error e => rfl
  · rintro i ⟨ns, t, log⟩
    dsimp only
    split
    · cases readPart clk spp ns _ _ _ t with
      | ok r => rfl
      | error e => rfl
    · rfl

/-- The command `cmd` reads the logical pages `group`, and they lie in its flash page. -/
structure Reads (spp : SsdParams) (addr : Nat → Ppa) (group : List Nat) (cmd : NandCmd) : Prop where
  op : cmd.cmd = .read
  some_page : group ≠ []
  xferSize : cmd.xferSize = group.length * spp.pgsz
  same_page : ∀ lpn ∈ group, isSameFlashPage spp (addr lpn) cmd.ppa = true

/-- The read loop after the logical pages `lpns`: the mapped ones are in the commands so far, and the
last of them in the pending transfer. -/
structure Gathered (spp : SsdParams) (addr : Nat → Ppa) (lpns : List Nat) (groups : List (List Nat))
    (pending : List Nat) (r : ReadState) : Prop where
  pages : groups.flatten ++ pending = lpns.filter (fun lpn => mappedPpa (addr lpn))
  reads : List.Forall₂ (Reads spp addr) groups r.issued
  xferSize : r.xferSize = pending.length * spp.pgsz
  same_page : ∀ lpn ∈ pending, isSameFlashPage spp (addr lpn) r.prevPpa = true

variable {addr : Nat → Ppa} {lpns pending : List Nat} {groups : List (List Nat)} {r r' : ReadState}

theorem filter_snoc_pos {p : Nat → Bool} {x : Nat} (h : p x = true) (l : List Nat) :
    (l ++ [x]).filter p = l.filter p ++ [x] := by
  rw [List.filter_append, List.filter_cons_of_pos h, List.filter_nil]

theorem filter_snoc_neg {p : Nat → Bool} {x : Nat} (h : ¬ p x = true) (l : List Nat) :
    (l ++ [x]).filter p = l.filter p := by
  rw [List.filter_append, List.filter_cons_of_neg h, List.filter_nil, List.append_nil]

theorem isSameFlashPage_refl (spp : SsdParams) (a : Ppa) : isSameFlashPage spp a a = true := by
  unfold isSameFlashPage
  rw [beq_self_eq_true, beq_self_eq_true]
  rfl

theorem Gathered.issue {stime : Nat} (k : Gathered spp addr lpns groups pending r)
    (hx : 0 < r.xferSize) (h : issueRead clk spp stime r = .ok r') :
    Gathered spp addr lpns (groups ++ [pending]) [] { r' with xferSize := 0 } := by
  unfold issueRead at h
  obtain ⟨⟨ssd, t⟩, _, h⟩ := bind_eq_ok.mp h
  cases h
  have hne : pending ≠ [] := by
    rintro rfl
    rw [k.xferSize, List.length_nil, Nat.zero_mul] at hx
    exact absurd hx (Nat.lt_irrefl 0)
  refine ⟨?_, ?_, ?_, fun _ hmem => nomatch hmem⟩
  · rw [← k.pages, List.flatten_append, List.flatten_singleton, List.append_nil]
  · exact List.rel_append k.reads (.cons ⟨rfl, hne, k.xferSize, k.same_page⟩ .nil)
  · rw [List.length_nil, Nat.zero_mul]

theorem Gathered.open (k : Gathered spp addr lpns groups [] r) {lpn : Nat} (hm : mappedPpa (addr lpn) = true) :
    Gathered spp addr (lpns ++ [lpn]) groups [lpn] { r with xferSize := spp.pgsz, prevPpa := addr lpn } := by
  refine ⟨?_, k.reads, ?_, ?_⟩
  · have hp := k.pages
    rw [List.append_nil] at hp
    rw [filter_snoc_pos hm, ← hp]
  · rw [List.length_singleton, Nat.one_mul]
  · intro lpn' hmem
    rw [List.mem_singleton.mp hmem]
    exact isSameFlashPage_refl spp _

theorem readOnePage_gathered {f : ConvFtl} {stime lpn localLpn : Nat}
    (k : Gathered spp addr lpns groups pending r) (hpgsz : 0 < spp.pgsz) (haddr : f.maptbl localLpn = addr lpn)
    (hvalid : localLpn < spp.ttPgs → mappedPpa (addr lpn) = true → validPpa spp (addr lpn))
    (h : readOnePage clk spp f stime localLpn r = .ok r') :
    ∃ groups' pending', Gathered spp addr (lpns ++ [lpn]) groups' pending' r' := by
  unfold readOnePage at h
  obtain ⟨curPpa, hcur, h⟩ := bind_eq_ok.mp h
  unfold getMaptblEnt at hcur
  by_cases hlt : localLpn < spp.ttPgs
  swap
  · rw [if_neg hlt] at hcur
    cases hcur
  rw [if_pos hlt] at hcur
  cases hcur
  rw [haddr] at h
  split at h
  · rename_i hno
    cases h
    have hm : ¬ mappedPpa (addr lpn) = true := by
      intro hm
      rcases hno with hno | hno
      · rw [hno] at hm
        cases hm
      · exact hno (hvalid hlt hm)
    refine ⟨groups, pending, ?_, k.reads, k.xferSize, k.same_page⟩
    rw [filter_snoc_neg hm, ← k.pages]
  rename_i hyes
  have hm : mappedPpa (addr lpn) = true := by
    by_contra hm
    exact hyes (Or.inl (Bool.not_eq_true _ ▸ hm))
  split at h
  · rename_i hsame
    cases h
    refine ⟨groups, pending ++ [lpn], ?_, k.reads, ?_, ?_⟩
    · rw [filter_snoc_pos hm, ← k.pages, List.append_assoc]
    · rw [List.length_append, List.length_singleton, Nat.add_one_mul, k.xferSize]
    · intro lpn' hmem
      rcases List.mem_append.mp hmem with hmem | hmem
      · exact k.same_page lpn' hmem
      · rw [List.mem_singleton.mp hmem]
        exact hsame.2
  · split at h
    · rename_i hx
      obtain ⟨r₁, hr₁, h⟩ := bind_eq_ok.mp h
      cases h
      exact ⟨_, _, (k.issue hx hr₁).open hm⟩
    · rename_i hx
      cases h
      obtain rfl : pending = [] := by
        have hz := k.xferSize
        have hlen : pending.length * spp.pgsz = 0 := by omega
        rcases Nat.mul_eq_zero.mp hlen with hl | hp
        · exact List.length_eq_zero_iff.mp hl
        · omega
      exact ⟨_, _, k.open hm⟩

/-- The logical pages of the range that a partition has, from `start` on. -/
def strided (start n last : Nat) : List Nat :=
  (List.range ((last - start) / n + 1)).map (fun k => start + k * n)

/-- The commands of one partition read the mapped ones of its logical pages, in order. -/
theorem readPart_reads {stime start last latest t : Nat} {issued : List NandCmd} (hpgsz : 0 < spp.pgsz)
    (haddr : ∀ k, (ns.load (start % ns.nrParts)).maptbl ((start + k * ns.nrParts) / ns.nrParts) =
      addr (start + k * ns.nrParts))
    (hvalid : ∀ k, (start + k * ns.nrParts) / ns.nrParts < spp.ttPgs →
      mappedPpa (addr (start + k * ns.nrParts)) = true → validPpa spp (addr (start + k * ns.nrParts)))
    (h : readPart clk spp ns stime start last latest = .ok (ns', t, issued)) :
    (∃ groups, groups.flatten = (strided start ns.nrParts last).filter (fun lpn => mappedPpa (addr lpn)) ∧
      List.Forall₂ (Reads spp addr) groups issued) ∧
    ∃ ssd, ns' = ns.store (start % ns.nrParts) { ns.load (start % ns.nrParts) with ssd := ssd } := by
  unfold readPart at h
  dsimp only at h
  obtain ⟨prevPpa, _, h⟩ := bind_eq_ok.mp h
  obtain ⟨r, hr, h⟩ := bind_eq_ok.mp h
  have hloop : ∃ groups pending, Gathered spp addr (strided start ns.nrParts last) groups pending r := by
    refine upto_induct (fun k r => ∃ groups pending,
      Gathered spp addr ((List.range k).map (fun k => start + k * ns.nrParts)) groups pending r) hr ?_ ?_
    · exact ⟨[], [], rfl, .nil, (Nat.zero_mul _).symm, fun _ hmem => nomatch hmem⟩
    · rintro k _ r r' ⟨groups, pending, kr⟩ hr'
      rw [List.range_succ, List.map_append]
      exact readOnePage_gathered kr hpgsz (haddr k) (hvalid k) hr'
  obtain ⟨groups, pending, kr⟩ := hloop
  split at h
  · rename_i hx
    obtain ⟨r₁, hr₁, h⟩ := bind_eq_ok.mp h
    cases h
    have kd := kr.issue hx hr₁
    refine ⟨⟨_, ?_, kd.reads⟩, _, rfl⟩
    rw [← kd.pages, List.append_nil]
  · rename_i hx
    cases h
    refine ⟨⟨groups, ?_, kr.reads⟩, _, rfl⟩
    have hlen : pending.length * spp.pgsz = 0 := by
      have hz := kr.xferSize
      omega
    rcases Nat.mul_eq_zero.mp hlen with hl | hp
    · rw [← kr.pages, List.length_eq_zero_iff.mp hl, List.append_nil]
    · omega

/-- The address of logical page `lpn` of the namespace: entry `lpn / nr_parts` of the table of
partition `lpn % nr_parts`. -/
def lpnPpa (ns : ConvNs) (lpn : Nat) : Ppa := (ns.load (lpn % ns.nrParts)).maptbl (lpn / ns.nrParts)

def ReadsIn (spp : SsdParams) (ns : ConvNs) (group : List Nat) (e : Nat × NandCmd) : Prop :=
  (∀ lpn ∈ group, lpn % ns.nrParts = e.1) ∧ Reads spp (lpnPpa ns) group e.2

structure SameTables (ns ns' : ConvNs) : Prop where
  nrParts : ns'.nrParts = ns.nrParts
  maptbl : ∀ i, (ns'.load i).maptbl = (ns.load i).maptbl

theorem SameTables.store {ns₁ : ConvNs} (h : SameTables ns ns₁) (i : Nat) (ssd : Ssd) :
    SameTables ns (ns₁.store i { ns₁.load i with ssd := ssd }) := by
  refine ⟨h.nrParts, ?_⟩
  intro j
  by_cases hj : j = i
  · rw [hj, load_store_same]
    exact h.maptbl i
  · rw [load_store_other ns₁ _ hj]
    exact h.maptbl j

theorem mem_strided {first i n last lpn : Nat} (hi : i < n) (hle : first + i ≤ last) :
    lpn ∈ strided (first + i) n last ↔ first ≤ lpn ∧ lpn ≤ last ∧ (lpn - first) % n = i := by
  unfold strided
  rw [List.mem_map]
  constructor
  · rintro ⟨k, hk, rfl⟩
    rw [List.mem_range] at hk
    have hmul : k * n ≤ last - (first + i) :=
      Nat.le_trans (Nat.mul_le_mul_right n (Nat.le_of_lt_succ hk)) (Nat.div_mul_le_self _ _)
    refine ⟨by omega, by omega, ?_⟩
    rw [show first + i + k * n - first = i + k * n by omega, Nat.add_mul_mod_self_right, Nat.mod_eq_of_lt hi]
  · rintro ⟨hf, hl, hmod⟩
    have hdiv := Nat.div_add_mod (lpn - first) n
    rw [hmod, Nat.mul_comm] at hdiv
    refine ⟨(lpn - first) / n, ?_, by omega⟩
    rw [List.mem_range]
    exact Nat.lt_succ_of_le ((Nat.le_div_iff_mul_le (by omega)).mpr (by omega))

theorem strided_nodup {start n last : Nat} (hn : 0 < n) : (strided start n last).Nodup := by
  refine List.Nodup.map ?_ List.nodup_range
  intro a b hab
  exact Nat.eq_of_mul_eq_mul_right hn (Nat.add_left_cancel hab)

theorem strided_mod {start n last lpn : Nat} (h : lpn ∈ strided start n last) : lpn % n = start % n := by
  obtain ⟨k, _, rfl⟩ := List.mem_map.mp h
  exact Nat.add_mul_mod_self_right start k n

/-- The commands so far account for the mapped pages of the partitions so far. -/
structure Accounted (spp : SsdParams) (ns : ConvNs) (first last i : Nat) (groups : List (List Nat))
    (log : List (Nat × NandCmd)) : Prop where
  reads : List.Forall₂ (ReadsIn spp ns) groups log
  nodup : groups.flatten.Nodup
  mem : ∀ lpn, lpn ∈ groups.flatten ↔
    first ≤ lpn ∧ lpn ≤ last ∧ (lpn - first) % ns.nrParts < i ∧ mappedPpa (lpnPpa ns lpn) = true

theorem Accounted.next {ns₁ : ConvNs} {first last i stime latest t : Nat} {groups : List (List Nat)}
    {log : List (Nat × NandCmd)} {issued : List NandCmd} (k : Accounted spp ns first last i groups log)
    (hs : SameTables ns ns₁) (hpgsz : 0 < spp.pgsz) (hi : i < ns.nrParts) (hle : first + i ≤ last)
    (hvalid : ∀ lpn, lpn / ns.nrParts < spp.ttPgs →
      mappedPpa (lpnPpa ns lpn) = true → validPpa spp (lpnPpa ns lpn))
    (h : readPart clk spp ns₁ stime (first + i) last latest = .ok (ns', t, issued)) :
    SameTables ns ns' ∧ ∃ groups', Accounted spp ns first last (i+1) groups'
      (log ++ issued.map (Prod.mk ((first + i) % ns.nrParts))) := by
  have hmod : ∀ j, (first + i + j * ns.nrParts) % ns.nrParts = (first + i) % ns.nrParts :=
    fun j => Nat.add_mul_mod_self_right _ j _
  have haddr : ∀ j, (ns₁.load ((first + i) % ns₁.nrParts)).maptbl
      ((first + i + j * ns₁.nrParts) / ns₁.nrParts) = lpnPpa ns (first + i + j * ns₁.nrParts) := by
    intro j
    rw [hs.nrParts, hs.maptbl]
    unfold lpnPpa
    rw [hmod]
  obtain ⟨⟨more, hflat, hreads⟩, ssd, rfl⟩ := readPart_reads hpgsz haddr
    (by
      intro j
      rw [hs.nrParts]
      exact hvalid _) h
  rw [hs.nrParts] at hflat
  have hmem : ∀ lpn, lpn ∈ more.flatten ↔
      (first ≤ lpn ∧ lpn ≤ last ∧ (lpn - first) % ns.nrParts = i) ∧ mappedPpa (lpnPpa ns lpn) = true := by
    intro lpn
    rw [hflat, List.mem_filter, mem_strided hi hle]
  refine ⟨hs.store _ _, groups ++ more, ?_, ?_, ?_⟩
  · have hpart : ∀ group ∈ more, ∀ lpn ∈ group, lpn % ns.nrParts = (first + i) % ns.nrParts := by
      intro group hgroup lpn hlpn
      have hin := List.mem_flatten_of_mem hgroup hlpn
      rw [hflat] at hin
      exact strided_mod (List.mem_filter.mp hin).1
    have hboth : List.Forall₂ (fun group cmd => ReadsIn spp ns group ((first + i) % ns.nrParts, cmd))
      more issued :=
      (List.forall₂_and_left _ _).mpr ⟨hpart, hreads⟩
    exact List.rel_append k.reads (List.forall₂_map_right_iff.mpr hboth)
  · rw [List.flatten_append]
    refine k.nodup.append (hflat ▸ (strided_nodup (by omega)).filter _) ?_
    intro lpn hl hr
    have h₁ := ((k.mem lpn).mp hl).2.2.1
    have h₂ := ((hmem lpn).mp hr).1.2.2
    omega
  · intro lpn
    rw [List.flatten_append, List.mem_append, k.mem, hmem]
    constructor
    · rintro (⟨hf, hl, hlt, hm⟩ | ⟨⟨hf, hl, he⟩, hm⟩)
      · exact ⟨hf, hl, by omega, hm⟩
      · exact ⟨hf, hl, by omega, hm⟩
    · rintro ⟨hf, hl, hlt, hm⟩
      by_cases he : (lpn - first) % ns.nrParts = i
      · exact Or.inr ⟨⟨hf, hl, he⟩, hm⟩
      · exact Or.inl ⟨hf, hl, by omega, hm⟩

/-- What the commands of a read of the logical pages `first` to `last` add up to. -/
structure ReadServed (spp : SsdParams) (ns : ConvNs) (first last : Nat)
    (log : List (Nat × NandCmd)) : Prop where
  accounted : ∃ groups : List (List Nat), List.Forall₂ (ReadsIn spp ns) groups log ∧ groups.flatten.Nodup ∧
    ∀ lpn, lpn ∈ groups.flatten ↔ (first ≤ lpn ∧ lpn ≤ last) ∧ mappedPpa (lpnPpa ns lpn) = true
  total : (log.map (fun e => e.2.xferSize)).sum =
    spp.pgsz * ((Finset.Icc first last).filter (fun lpn => mappedPpa (lpnPpa ns lpn) = true)).card
  bound : ∀ e ∈ log, e.2.xferSize ≤ spp.pgsPerFlashpg * spp.pgsz

/-- The bytes of the commands are the bytes of their logical pages. -/
theorem reads_sum {log : List (Nat × NandCmd)} (h : List.Forall₂ (ReadsIn spp ns) groups log) :
    (log.map (fun e => e.2.xferSize)).sum = spp.pgsz * groups.flatten.length := by
  induction h with
  | nil => rfl
  | cons hr _ ih =>
    rw [List.map_cons, List.sum_cons, ih, List.flatten_cons, List.length_append, hr.2.xferSize, Nat.mul_comm,
      Nat.mul_add]

/-- The pages of one flash page are few, and different logical pages have different pages. -/
theorem ReadsIn.bound {group : List Nat} {e : Nat × NandCmd} (h : ReadsIn spp ns group e) (g : Geometry spp)
    (hnodup : group.Nodup) (hpage : ∀ lpn ∈ group, Page spp (lpnPpa ns lpn))
    (hinj : ∀ lpn ∈ group, ∀ lpn' ∈ group, lpnPpa ns lpn = lpnPpa ns lpn' → lpn = lpn') :
    e.2.xferSize ≤ spp.pgsPerFlashpg * spp.pgsz := by
  obtain ⟨_, hreads⟩ := h
  rw [hreads.xferSize]
  refine Nat.mul_le_mul_right _ ?_
  have hsame : ∀ lpn ∈ group, (lpnPpa ns lpn).addr = e.2.ppa.addr ∧
      (lpnPpa ns lpn).pg / spp.pgsPerFlashpg = e.2.ppa.pg / spp.pgsPerFlashpg := by
    intro lpn hmem
    have hs := hreads.same_page lpn hmem
    unfold isSameFlashPage at hs
    rw [Bool.and_eq_true, beq_iff_eq, beq_iff_eq] at hs
    exact hs
  have hslots : (group.map (fun lpn => (lpnPpa ns lpn).pg % spp.pgsPerFlashpg)).Nodup := by
    refine hnodup.map_on ?_
    intro lpn hmem lpn' hmem' he
    refine hinj lpn hmem lpn' hmem' ?_
    obtain ⟨ha, hd⟩ := hsame lpn hmem
    obtain ⟨ha', hd'⟩ := hsame lpn' hmem'
    have hpg : (lpnPpa ns lpn).pg = (lpnPpa ns lpn').pg := by
      rw [← Nat.div_add_mod (lpnPpa ns lpn).pg spp.pgsPerFlashpg,
        ← Nat.div_add_mod (lpnPpa ns lpn').pg spp.pgsPerFlashpg, hd, hd', he]
    have haddr := ha.trans ha'.symm
    rw [(hpage lpn hmem).eq_pageAt, (hpage lpn' hmem').eq_pageAt, hpg, show (lpnPpa ns lpn).ch = _ from
      congrArg BlkAddr.ch haddr, show (lpnPpa ns lpn).lun = _ from congrArg BlkAddr.lun haddr,
      show (lpnPpa ns lpn).blk = _ from congrArg BlkAddr.blk haddr]
    rfl
  have hsub : group.map (fun lpn => (lpnPpa ns lpn).pg % spp.pgsPerFlashpg) ⊆
      List.range spp.pgsPerFlashpg := by
    intro slot hmem
    obtain ⟨lpn, _, rfl⟩ := List.mem_map.mp hmem
    exact List.mem_range.mpr (Nat.mod_lt _ g.flash_pos)
  have hle := (hslots.subperm hsub).length_le
  rwa [List.length_map, List.length_range] at hle

theorem forall₂_right {α β : Type} {R : α → β → Prop} {P : β → Prop} {l : List α} {u : List β}
    (h : List.Forall₂ R l u) (hP : ∀ a ∈ l, ∀ b, R a b → P b) : ∀ b ∈ u, P b := by
  induction h with
  | nil => exact fun _ hmem => nomatch hmem
  | cons hr _ ih =>
    intro b hmem
    rcases List.mem_cons.mp hmem with rfl | hmem
    · exact hP _ List.mem_cons_self _ hr
    · exact ih (fun a ha => hP a (List.mem_cons_of_mem _ ha)) b hmem

section Results

variable {cfg : ConvConfig} {mem : Nat → Leftover} {size : Nat} {host : ConvNs → NvmevRequest → Prop}
  {ops : List InternalOp} {req : NvmevRequest} {ret : NvmevResult} {log : List (Nat × NandCmd)}

/-- A read that is accepted has gone through all its partitions. -/
theorem convReadLogged_accounted (hpgsz : 0 < spp.pgsz)
    (hvalid : ∀ lpn, lpn / ns.nrParts < spp.ttPgs →
      mappedPpa (lpnPpa ns lpn) = true → validPpa spp (lpnPpa ns lpn))
    (h : convReadLogged clk spp ns req = .ok (some (ns', ret, log))) :
    0 < ns.nrParts ∧ endLpn spp req.cmd / ns.nrParts < spp.ttPgs ∧
      ∃ groups, Accounted spp ns (startLpn spp req.cmd) (endLpn spp req.cmd) ns.nrParts groups log := by
  unfold convReadLogged at h
  dsimp only at h
  generalize startLpn spp req.cmd = first at *
  generalize endLpn spp req.cmd = last at *
  split at h
  · cases h
  rename_i hn
  split at h
  · cases h
  rename_i hlast
  obtain ⟨⟨ns₁, t₁, log₁⟩, hloop, h⟩ := bind_eq_ok.mp h
  cases h
  refine ⟨Nat.pos_of_ne_zero hn, Nat.not_le.mp hlast, ?_⟩
  refine (upto_induct (fun i (p : ConvNs × Nat × List (Nat × NandCmd)) =>
    SameTables ns p.1 ∧ ∃ groups, Accounted spp ns first last i groups p.2.2) hloop ?_ ?_).2
  · refine ⟨⟨rfl, fun _ => rfl⟩, [], .nil, List.nodup_nil, ?_⟩
    intro lpn
    constructor
    · exact fun hmem => nomatch hmem
    · exact fun hk => absurd hk.2.2.1 (Nat.not_lt_zero _)
  · rintro i hi ⟨ns₂, t₂, log₂⟩ ⟨ns₃, t₃, log₃⟩ ⟨hs, groups, k⟩ hstep
    dsimp only at hstep hs k ⊢
    split at hstep
    · rename_i hle
      obtain ⟨⟨ns₄, t₄, issued⟩, hpart, hstep⟩ := bind_eq_ok.mp hstep
      cases hstep
      rw [hs.nrParts]
      exact k.next hs hpgsz hi hle hvalid hpart
    · rename_i hgt
      cases hstep
      refine ⟨hs, groups, k.reads, k.nodup, ?_⟩
      intro lpn
      rw [k.mem]
      constructor
      · rintro ⟨hf, hl, hlt, hm⟩
        exact ⟨hf, hl, by omega, hm⟩
      · rintro ⟨hf, hl, hlt, hm⟩
        have hle := Nat.mod_le (lpn - first) ns.nrParts
        exact ⟨hf, hl, by omega, hm⟩

/-- The NAND commands of a read account for the mapped pages of its range, once each and flash page by
flash page. The tables must have started out blank. -/
theorem conv_read_served (hr : Reachable clk cfg mem size host spp ns ops)
    (hm : AllBlank spp mem cfg.ssdPartitions)
    (h : convReadLogged clk spp ns req = .ok (some (ns', ret, log))) :
    ReadServed spp ns (startLpn spp req.cmd) (endLpn spp req.cmd) log := by
  obtain ⟨ns₀, hfresh⟩ := hr.fresh
  have hpgsz : 0 < spp.pgsz := by
    rw [hfresh.derived.pgsz]
    decide
  rcases Nat.eq_zero_or_pos spp.ttPgs with hz | hpos
  · obtain ⟨_, hlast, _⟩ := convReadLogged_accounted hpgsz
      (fun lpn hlt => absurd (hz ▸ hlt) (Nat.not_lt_zero _)) h
    exact absurd (hz ▸ hlast) (Nat.not_lt_zero _)
  have g := hr.geometry hpos
  have k := (hr.nsOk hpos).1
  have hmap : ∀ lpn, 0 < ns.nrParts →
      MapOk spp (ns.load (lpn % ns.nrParts)) (ValidPage spp (ns.load (lpn % ns.nrParts))) :=
    fun lpn hn => k.map hm _ (Nat.mod_lt lpn hn)
  have hpage : ∀ lpn, 0 < ns.nrParts → lpn / ns.nrParts < spp.ttPgs → mappedPpa (lpnPpa ns lpn) = true →
      Page spp (lpnPpa ns lpn) :=
    fun lpn hn hlt hmapped => ((hmap lpn hn).forward _ hlt (mappedPpa_iff.mp hmapped)).1.1
  obtain ⟨hn, hlast, groups, hacc⟩ := convReadLogged_accounted hpgsz
    (fun lpn hlt hmapped => (hpage lpn k.parts_pos hlt hmapped).validPpa g) h
  have hmem : ∀ lpn, lpn ∈ groups.flatten ↔ (startLpn spp req.cmd ≤ lpn ∧ lpn ≤ endLpn spp req.cmd) ∧
      mappedPpa (lpnPpa ns lpn) = true := by
    intro lpn
    rw [hacc.mem]
    have hmod := Nat.mod_lt (lpn - startLpn spp req.cmd) hn
    exact ⟨fun ⟨hf, hl, _, hmp⟩ => ⟨⟨hf, hl⟩, hmp⟩, fun ⟨⟨hf, hl⟩, hmp⟩ => ⟨hf, hl, hmod, hmp⟩⟩
  have hlocal : ∀ lpn ∈ groups.flatten, lpn / ns.nrParts < spp.ttPgs ∧ mappedPpa (lpnPpa ns lpn) = true := by
    intro lpn hin
    obtain ⟨⟨_, hle⟩, hmp⟩ := (hmem lpn).mp hin
    exact ⟨Nat.lt_of_le_of_lt (Nat.div_le_div_right hle) hlast, hmp⟩
  refine ⟨⟨groups, hacc.reads, hacc.nodup, hmem⟩, ?_, ?_⟩
  · rw [reads_sum hacc.reads, ← List.toFinset_card_of_nodup hacc.nodup]
    congr 2
    ext lpn
    rw [List.mem_toFinset, hmem, Finset.mem_filter, Finset.mem_Icc]
  · refine forall₂_right hacc.reads ?_
    intro group hgroup e he
    have hin : ∀ lpn ∈ group, lpn ∈ groups.flatten := fun lpn hl => List.mem_flatten_of_mem hgroup hl
    refine he.bound g ((List.nodup_flatten.mp hacc.nodup).1 group hgroup) ?_ ?_
    · intro lpn hl
      obtain ⟨hlt, hmp⟩ := hlocal lpn (hin lpn hl)
      exact hpage lpn hn hlt hmp
    · intro lpn hl lpn' hl' heq
      obtain ⟨hlt, hmp⟩ := hlocal lpn (hin lpn hl)
      obtain ⟨hlt', _⟩ := hlocal lpn' (hin lpn' hl')
      have hpart : lpn % ns.nrParts = lpn' % ns.nrParts := (he.1 lpn hl).trans (he.1 lpn' hl').symm
      unfold lpnPpa at heq hmp
      rw [← hpart] at heq
      have hdiv := (hmap lpn hn).inj hlt hlt' (mappedPpa_iff.mp hmp) heq
      rw [← Nat.div_add_mod lpn ns.nrParts, ← Nat.div_add_mod lpn' ns.nrParts, hdiv, hpart]

/-- A page is written and read back. -/
theorem conv_read_served_page : ∃ spp ns log, ReadServed spp ns 1 1 log ∧ log.length = 1 := by
  obtain ⟨spp, ns, o, ns', ret, log, hr, h, hread, hpgs, hfirst, hlast, hlog⟩ : ∃ spp ns o ns' ret log,
      Reachable (fun _ => 0) twoPartitions (fun _ => zeroLeftover) 90112 anyRequest spp ns [] ∧
      convProcNvmeIoCmd (fun _ => 0) spp (convInitParams twoPartitions.toSsdConfig) 0 ns (hostWrite 8 8)
        ⟨0, 0⟩ = .ok o ∧
      convReadLogged (fun _ => 0) spp o.ns (hostRead 8 8) = .ok (some (ns', ret, log)) ∧
      spp.ttPgs ≤ 2^31 ∧ startLpn spp (hostRead 8 8).cmd = 1 ∧ endLpn spp (hostRead 8 8).cmd = 1 ∧
      log.length = 1 :=
    ⟨_, _, _, _, _, _, Reachable.init rfl, rfl, rfl, by decide, rfl, rfl, rfl⟩
  have hblank : AllBlank spp (fun _ => zeroLeftover) twoPartitions.ssdPartitions := by
    intro i _ lpn hlow hlt
    omega
  have hserved := conv_read_served (hr.command trivial h) hblank hread
  rw [hfirst, hlast] at hserved
  exact ⟨spp, o.ns, log, hserved, hlog⟩

/-- At 16 TiB nine pages above `2^31` that were never written are read in one command, out of a flash
page of eight. -/
theorem conv_read_served_fails_16TiB : ∃ spp ns ns' ret log,
    Reachable (fun _ => 0) convSamsung970Pro (fun _ => zeroLeftover) (2^44) anyRequest spp ns [] ∧
    convReadLogged (fun _ => 0) spp ns (hostRead (2^34) 72) = .ok (some (ns', ret, log)) ∧
    ¬ ReadServed spp ns (startLpn spp (hostRead (2^34) 72).cmd) (endLpn spp (hostRead (2^34) 72).cmd) log := by
  refine ⟨_, _, _, _, _,
    Reachable.init (convInitNamespace_eq rfl rfl (by decide) (fun _ => zeroLeftover)), rfl, ?_⟩
  intro k
  have hb := k.bound _ List.mem_cons_self
  exact absurd hb (by decide)

end Results

end NVMeVirt
