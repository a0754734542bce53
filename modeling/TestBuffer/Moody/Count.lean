import TestBuffer.Moody.Queue
/-!
# `buf-moody` — what `*n_packet` counts

`read_data` adds one to `*n_packet` for every word of an array that is
4321, and goes on to the next: so after each array the count is the running
total of all such words (`counts_eq_tally`). So each packet
is counted once exactly where none brings a second such word and none is
queued with one that an earlier and longer packet left in `data_buffer`
(`counted_iff`).
-/

namespace TestBuffer

namespace Moody

/-- The words of an array that are 4321. -/
def marks (data : Data) : ℕ := (List.ofFn data).count 4321

/-- The counter and its past values, `data` being the arrays whose loop
body has ended and `seen` the words of the next that were 4321. -/
structure Counts (data : List Data) (seen : ℕ) (sh : Shared) : Prop where
  nPacket_eq : sh.nPacket = (data.map marks).sum + seen
  counts_eq : sh.counts = tally 0 (data.map marks)

/-- **What is true while `read_data` is at a place.** -/
def assertion (p : Pool.Place Task Loc MainLoc) (w : Pool.World udpLen Shared Data) : Prop :=
  match p with
  | .loc (.scan rest) _ => ∃ before data seen, w.shared.dequeued = before ++ [data] ∧
      List.ofFn data = seen ++ rest ∧ Counts before (seen.count 4321) w.shared
  | _ => Counts w.shared.dequeued 0 w.shared

/-- The outline is about the arrays dequeued, the counter and its past
values. -/
theorem assertion_congr {p : Pool.Place Task Loc MainLoc} (w w' : Pool.World udpLen Shared Data)
    (hdequeued : w'.shared.dequeued = w.shared.dequeued)
    (hpacket : w'.shared.nPacket = w.shared.nPacket)
    (hcounts : w'.shared.counts = w.shared.counts) (hA : assertion p w) : assertion p w' := by
  have hC : ∀ data seen, Counts data seen w.shared → Counts data seen w'.shared :=
    fun data seen C => ⟨hpacket.trans C.nPacket_eq, hcounts.trans C.counts_eq⟩
  unfold assertion at hA ⊢
  rw [hdequeued]
  split at hA
  · obtain ⟨before, data, seen, hd, hscan, C⟩ := hA
    exact ⟨before, data, seen, hd, hscan, hC _ _ C⟩
  · exact hC _ _ hA

/-- **The proof outline of `read_data`.** -/
theorem outline : Pool.Outline reading assertion where
  start {w j} hpos hA := by
    obtain ⟨τ, cause⟩ := j
    cases τ with
    | readData => exact hA
    | handleData | receiveData => exact absurd hpos (lt_irrefl 0)
  complete hpos := absurd hpos (lt_irrefl 0)
  exec {w l cause o} hl ho hA := by
    cases step_of_exec ho with
    | leave _ =>
      rw [Pool.Weight.placeAfter_return _ rfl rfl]
      exact hA
    | loop _ | peekNone _ | peek _ | take _ | takeNone _ =>
      rw [Pool.Weight.placeAfter_next _ rfl rfl Nat.one_pos]
      exact ⟨hA.nPacket_eq, hA.counts_eq⟩
    | dequeue _ =>
      rw [Pool.Weight.placeAfter_next _ rfl rfl Nat.one_pos]
      exact ⟨w.shared.dequeued, _, [], rfl, (List.nil_append _).symm, hA.nPacket_eq, hA.counts_eq⟩
    | finish =>
      rw [Pool.Weight.placeAfter_next _ rfl rfl Nat.one_pos]
      obtain ⟨before, data, seen, hd, hscan, C⟩ := hA
      -- every word has been looked at, so what was seen of the array is all of it
      have hseen : seen.count 4321 = marks data := by
        rw [marks, hscan, List.append_nil]
      have hpacket := C.nPacket_eq
      refine ⟨?_, ?_⟩
      · show w.shared.nPacket = (w.shared.dequeued.map marks).sum + 0
        rw [hd, List.map_append, List.sum_append]
        simp only [List.map_singleton, List.sum_singleton]
        omega
      · show w.shared.counts ++ [w.shared.nPacket] = tally 0 (w.shared.dequeued.map marks)
        rw [hd, List.map_append, List.map_singleton, tally_concat, C.counts_eq, hpacket, hseen,
          Nat.zero_add]
    | @marker x rest hx =>
      rw [Pool.Weight.placeAfter_next _ rfl rfl Nat.one_pos]
      obtain ⟨before, data, seen, hd, hscan, C⟩ := hA
      have hpacket := C.nPacket_eq
      refine ⟨before, data, seen ++ [x], hd, ?_, ?_, C.counts_eq⟩
      · rw [hscan, List.append_assoc]
        rfl
      · show w.shared.nPacket + 1 = _
        rw [List.count_append, hx, List.count_singleton_self]
        omega
    | @other x rest hx =>
      rw [Pool.Weight.placeAfter_next _ rfl rfl Nat.one_pos]
      obtain ⟨before, data, seen, hd, hscan, C⟩ := hA
      have hnone : [x].count 4321 = 0 := List.count_eq_zero.mpr fun h =>
        hx (List.mem_singleton.mp h).symm
      refine ⟨before, data, seen ++ [x], hd, ?_, ?_, C.counts_eq⟩
      · rw [hscan, List.append_assoc]
        rfl
      · rw [List.count_append, hnone]
        exact C.nPacket_eq
    | _ => exact absurd hl (lt_irrefl 0)
  mainStep {w m joined o} hm ho hA := by
    obtain ⟨rfl, rfl⟩ | ⟨rfl, rfl⟩ | ⟨hleft, _⟩ := main_cases ho
    · rw [Pool.Weight.placeAfterMain_next _ Nat.one_pos]
      exact hA
    · rw [Pool.Weight.placeAfterMain_post _ rfl rfl Nat.one_pos]
      exact hA
    · cases m with
      | postHandleData | postReadData => cases hleft
      | _ => exact absurd hm (lt_irrefl 0)
  wake := nofun
  complete_stable _ hA := assertion_congr _ _ rfl rfl rfl hA
  exec_stable {w l cause o p} hl ho hA := by
    cases step_of_exec ho with
    | leave _ | loop _ | peekNone _ | peek _ | take _ | takeNone _ => exact absurd hl Nat.one_ne_zero
    | dequeue _ | finish | marker _ | other _ => exact absurd hl Nat.one_ne_zero
    | _ => exact assertion_congr w _ rfl rfl rfl hA
  main_stable {w m joined o p} _ ho hA := by
    have hsh := main_shared ho
    refine assertion_congr w _ ?_ ?_ ?_ hA
    all_goals rw [Pool.World.afterMain, hsh]

variable {Tid : Type*} [Fintype Tid] [DecidableEq Tid]
variable {s : Pool.State udpLen Tid Task Loc MainLoc Shared Data}

/-- **The counter after each array** has counted every 4321 in it and in
those before it. -/
theorem counts_eq_tally (hs : (machine Tid).Reachable s) :
    s.world.shared.counts =
      tally 0 ((s.world.shared.dequeued.take s.world.shared.counts.length).map marks) := by
  obtain ⟨p, hp⟩ := reading.exists_occupied s
  have hA := (outline.meets rfl ⟨rfl, rfl⟩ hs).2 p hp
  unfold assertion at hA
  split at hA
  · obtain ⟨before, data, seen, hd, _, C⟩ := hA
    have hlength : s.world.shared.counts.length = before.length := by
      rw [C.counts_eq, length_tally, List.length_map]
    rw [hlength, hd, List.take_left]
    exact C.counts_eq
  · have hlength : s.world.shared.counts.length = s.world.shared.dequeued.length := by
      rw [hA.counts_eq, length_tally, List.length_map]
    rw [hlength, List.take_length]
    exact hA.counts_eq

/-- An array has no more markers than words. -/
theorem marks_le (data : Data) : marks data ≤ udpLen :=
  (List.count_le_length).trans (List.length_ofFn).le

/-- **`*n_packet` is 600 times the arrays dequeued at most**, so it is an
`int` while these are no more than 3579139. -/
theorem nPacket_le (hs : (machine Tid).Reachable s) :
    s.world.shared.nPacket ≤ udpLen * s.world.shared.dequeued.length := by
  have hsum : ∀ data : List Data, (data.map marks).sum ≤ udpLen * data.length := by
    intro data
    have := List.sum_le_card_nsmul (data.map marks) udpLen fun n hn => by
      obtain ⟨d, -, rfl⟩ := List.mem_map.mp hn
      exact marks_le d
    rw [List.length_map] at this
    exact this.trans (Nat.mul_comm _ _).le
  obtain ⟨p, hp⟩ := reading.exists_occupied s
  have hA := (outline.meets rfl ⟨rfl, rfl⟩ hs).2 p hp
  unfold assertion at hA
  split at hA
  · obtain ⟨before, data, seen, hd, hscan, C⟩ := hA
    have hseen : seen.count 4321 ≤ marks data := by
      rw [marks, hscan, List.count_append]
      exact Nat.le_add_right _ _
    calc s.world.shared.nPacket = (before.map marks).sum + seen.count 4321 := C.nPacket_eq
      _ ≤ udpLen * before.length + udpLen :=
          Nat.add_le_add (hsum before) (hseen.trans (marks_le data))
      _ = udpLen * s.world.shared.dequeued.length := by
          rw [hd, List.length_append, List.length_singleton, Nat.mul_succ]
  · exact hA.nPacket_eq.le.trans (hsum _)

/-- `data_buffer`, a global, after a sequence of completions. -/
def dataBuffer (cs : List Completion) : Buffer udpLen := bufferAfter (fun _ => 0) cs

/-- The arrays whose loop body has ended are `data_buffer` after the first
completions. -/
theorem getElem?_dequeued (hs : (machine Tid).Reachable s) {k : ℕ}
    (hk : k < s.world.shared.counts.length) :
    s.world.shared.dequeued[k]? =
        some (word (dataBuffer (s.world.completions.take (k + 1)))) ∧
      k < s.world.completions.length := by
  have hlength : s.world.shared.counts.length ≤ s.world.shared.dequeued.length := by
    have := congrArg List.length (counts_eq_tally hs)
    rw [length_tally, List.length_map, List.length_take] at this
    omega
  have hprefix : s.world.shared.dequeued <+:
      (Pool.handed word (fun _ => 0) s.world.completions).map Pool.Offer.record := by
    refine List.IsPrefix.trans ?_ ((handover.offers_prefix_handed hs).map Pool.Offer.record)
    rw [← dequeued_append_inner hs]
    exact List.prefix_append _ _
  have hcompletions : k < s.world.completions.length := by
    have := hprefix.length_le
    rw [List.length_map, Pool.length_handed] at this
    omega
  obtain ⟨later, hlater⟩ := hprefix
  have hget : (s.world.shared.dequeued ++ later)[k]? = s.world.shared.dequeued[k]? :=
    List.getElem?_append_left (by omega)
  rw [← hget, hlater, List.getElem?_map, Pool.getElem?_handed hcompletions]
  exact ⟨rfl, hcompletions⟩

/-! ## Packets -/

/-- A completion brings a packet where 4321 is among its own words. -/
def marked (c : Completion) : Bool := decide (4321 ∈ c.own udpLen)

/-- **Each packet is counted once**: after the `k`-th array the counter is
the number of packets among the first `k` completions. -/
def Counted (s : Pool.State udpLen Tid Task Loc MainLoc Shared Data) : Prop :=
  ∀ k < s.world.shared.counts.length, s.world.shared.counts[k]? =
    some ((s.world.completions.take (k + 1)).countP marked)

/-- **A completion is clean** where it brings the marker once at most, and
none is among the words of the buffer that it did not bring. -/
def CleanAt (b : Buffer udpLen) (c : Completion) : Prop :=
  (c.own udpLen).count 4321 ≤ 1 ∧ 4321 ∉ c.leftover b

/-- The first `n` completions are. -/
def Clean (n : ℕ) (cs : List Completion) : Prop :=
  ∀ k c, k < n → cs[k]? = some c → CleanAt (dataBuffer (cs.take k)) c

/-- What `read_data` counts of an array, of the words the completion
brought and of those it left. -/
theorem marks_receive (b : Buffer udpLen) (c : Completion) :
    marks (word (c.receive b)) = (c.own udpLen).count 4321 + (c.leftover b).count 4321 := by
  rw [marks, ofFn_word_receive, List.count_append]

/-- It is what it should be exactly where the completion is clean. -/
theorem marks_receive_eq_iff (b : Buffer udpLen) (c : Completion) :
    marks (word (c.receive b)) = (marked c).toNat ↔ CleanAt b c := by
  rw [CleanAt, marks_receive, marked, ← List.count_eq_zero (l := c.leftover b)]
  by_cases hown : 4321 ∈ c.own udpLen
  · have := List.count_pos_iff.mpr hown
    rw [decide_eq_true hown, Bool.toNat_true]
    omega
  · have := List.count_eq_zero.mpr hown
    rw [decide_eq_false hown, Bool.toNat_false]
    omega

/-- **`buf-moody` counts each packet once exactly where every completion
is clean**, of those whose array has been looked at. -/
theorem counted_iff (hs : (machine Tid).Reachable s) :
    Counted s ↔ Clean s.world.shared.counts.length s.world.completions := by
  set n := s.world.shared.counts.length with hn
  have hlength : n ≤ s.world.completions.length := by
    by_contra hlt
    exact hlt (Nat.le_of_pred_lt (getElem?_dequeued hs (k := n - 1) (by omega)).2)
  -- the packets so far are a running total too
  have hpackets : Counted s ↔ s.world.shared.counts =
      tally 0 ((s.world.completions.take n).map fun c => (marked c).toNat) := by
    have hlen : ((s.world.completions.take n).map fun c => (marked c).toNat).length = n := by
      rw [List.length_map, List.length_take, min_eq_left hlength]
    rw [eq_tally_iff (hn.symm.trans hlen.symm), hlen]
    refine forall₂_congr fun k hk => ?_
    rw [countP_eq_sum, ← List.map_take, List.take_take, min_eq_left (by omega : k + 1 ≤ n),
      Nat.zero_add]
  -- so each array has to add what its completion should
  have hitem : ∀ k c, k < n → s.world.completions[k]? = some c →
      (((s.world.shared.dequeued.take n).map marks)[k]? =
          ((s.world.completions.take n).map fun c => (marked c).toNat)[k]? ↔
        CleanAt (dataBuffer (s.world.completions.take k)) c) := by
    intro k c hk hc
    rw [List.getElem?_map, List.getElem?_map, List.getElem?_take_of_lt hk,
      List.getElem?_take_of_lt hk, (getElem?_dequeued hs hk).1, hc, Option.map_some,
      Option.map_some, Option.some.injEq, List.take_add_one, hc, Option.toList_some, dataBuffer,
      bufferAfter_concat]
    exact marks_receive_eq_iff _ c
  rw [hpackets, counts_eq_tally hs, tally_inj, List.ext_getElem?_iff]
  constructor
  · intro h k c hk hc
    exact (hitem k c hk hc).mp (h k)
  · intro h k
    by_cases hk : k < n
    · have hc := List.getElem?_eq_getElem (hk.trans_le hlength)
      exact (hitem k _ hk hc).mpr (h k _ hk hc)
    · rw [List.getElem?_eq_none, List.getElem?_eq_none]
      · rw [List.length_map, List.length_take]
        omega
      · rw [List.length_map, List.length_take]
        omega

/-! ## A packet counted twice -/

/-- What is shared once `read_data` has looked at the rest of an array. -/
def Shared.scanned (sh : Shared) (rest : List (BitVec 32)) : Shared :=
  { sh with
    nPacket := sh.nPacket + rest.count 4321
    counts := sh.counts ++ [sh.nPacket + rest.count 4321] }

/-- One word looked at. -/
theorem exec_scan (x : BitVec 32) (rest : List (BitVec 32)) (sh : Shared) (stopped : Bool)
    (b : Buffer udpLen) :
    program.exec (.scan (x :: rest)) sh stopped b =
      some
        { next := some (.scan rest)
          shared := { sh with nPacket := sh.nPacket + [x].count 4321 } } := by
  by_cases hx : x = 4321
  · have hone : [x].count 4321 = 1 := by rw [hx, List.count_singleton_self]
    rw [hone]
    exact if_pos hx
  · have hnone : [x].count 4321 = 0 :=
      List.count_eq_zero.mpr fun h => hx (List.mem_singleton.mp h).symm
    rw [hnone]
    exact if_neg hx

/-- **One loop body**, run to its end, adds every 4321 of the array. -/
theorem reachable_scanned (hs : (machine Tid).Reachable s) (rest : List (BitVec 32)) {t : Tid}
    {cause : Option ℕ} (ht : s.worker t = .busy (.scan rest) cause) :
    (machine Tid).Reachable { s with
      world.shared := s.world.shared.scanned rest
      worker := Function.update s.worker t (.busy .readData cause) } := by
  induction rest generalizing s with
  | nil =>
    have hstep := hs.step (Pool.step_exec none ht rfl rfl)
    rwa [Pool.State.exec_of_shared rfl rfl rfl] at hstep
  | cons x rest ih =>
    have hstep := hs.step (Pool.step_exec none ht (exec_scan x rest _ _ _) rfl)
    rw [Pool.State.exec_of_shared rfl rfl rfl] at hstep
    have hrest := ih hstep (Function.update_self t _ s.worker)
    have hcount : s.world.shared.nPacket + [x].count 4321 + rest.count 4321 =
        s.world.shared.nPacket + (x :: rest).count 4321 := by
      rw [Nat.add_assoc, ← List.count_append, List.singleton_append]
    simpa only [Shared.scanned, hcount, Function.update_idem] using hrest

/-- What is counted of the first datagram. -/
theorem exists_counted (payload : List (BitVec 8)) :
    ∃ s, (machine (Fin 2)).Reachable s ∧ s.world.completions = [.success payload] ∧
      s.world.shared.counts = [marks (word (fill payload fun _ => 0))] := by
  have hscan : (machine (Fin 2)).Reachable _ :=
    Machine.reachable_of_run (.init rfl)
      [.main, .main, .start 0 0, .exec 0 none, .exec 0 none, .complete (.success payload),
        .start 1 0, .start 0 0, .exec 0 none, .exec 0 none, .exec 0 none, .exec 1 none,
        .exec 1 none, .exec 1 none, .exec 1 none] rfl
  refine ⟨_, reachable_scanned hscan (List.ofFn (word (fill payload fun _ => 0))) (t := 1) rfl,
    rfl, ?_⟩
  show [] ++ [0 + marks (word (fill payload fun _ => 0))] = _
  rw [List.nil_append, Nat.zero_add]

/-- What is counted of the first two, the second in the buffer of the
first. -/
theorem exists_counted_two (p q : List (BitVec 8)) :
    ∃ s, (machine (Fin 2)).Reachable s ∧ s.world.completions = [.success p, .success q] ∧
      s.world.shared.counts = tally 0
        [marks (word (fill p fun _ => 0)), marks (word (fill q (fill p fun _ => 0)))] := by
  have hscan : (machine (Fin 2)).Reachable _ :=
    Machine.reachable_of_run (.init rfl)
      [.main, .main, .start 0 0, .exec 0 none, .exec 0 none, .complete (.success p),
        .start 1 0, .start 0 0, .exec 0 none, .exec 0 none, .exec 0 none, .exec 0 none,
        .exec 0 none, .exec 0 none, .complete (.success q), .start 0 0, .exec 0 none,
        .exec 0 none, .exec 0 none, .exec 1 none, .exec 1 none, .exec 1 none, .exec 1 none] rfl
  have hfirst := reachable_scanned hscan (List.ofFn (word (fill p fun _ => 0))) (t := 1) rfl
  have hsecond : (machine (Fin 2)).Reachable _ :=
    Machine.reachable_of_run hfirst [.exec 1 none, .exec 1 none, .exec 1 none, .exec 1 none] rfl
  refine ⟨_, reachable_scanned hsecond (List.ofFn (word (fill q (fill p fun _ => 0))))
    (t := 1) rfl, rfl, ?_⟩
  show [] ++ [0 + marks _] ++ [0 + marks _ + marks _] = tally 0 [marks _, marks _]
  rfl

/-- A datagram of two words, both 4321. -/
theorem counted_twice :
    ∃ s, (machine (Fin 2)).Reachable s ∧
      s.world.completions = [.success [0xE1, 0x10, 0, 0, 0xE1, 0x10, 0, 0]] ∧
      s.world.shared.counts = [2] ∧ ¬ Counted s := by
  obtain ⟨s, hs, hcompletions, hcounts⟩ := exists_counted [0xE1, 0x10, 0, 0, 0xE1, 0x10, 0, 0]
  have htwo : s.world.shared.counts = [2] := hcounts.trans (by decide +kernel)
  refine ⟨s, hs, hcompletions, htwo, fun h => ?_⟩
  have hzero := h 0 (by rw [htwo]; decide)
  rw [htwo, hcompletions] at hzero
  exact absurd hzero (by decide +kernel)

/-- A datagram that ends with 4321, and a shorter one that is 4321: the
marker of the first is still there and is counted with the second. -/
theorem counted_iff_of_leftover :
    ∃ s, (machine (Fin 2)).Reachable s ∧
      s.world.completions =
        [.success [0, 0, 0, 0, 0xE1, 0x10, 0, 0], .success [0xE1, 0x10, 0, 0]] ∧
      s.world.shared.counts = [1, 3] ∧ ¬ Counted s ∧
      (Counted s ↔
        Clean 2 [.success [0, 0, 0, 0, 0xE1, 0x10, 0, 0], .success [0xE1, 0x10, 0, 0]]) := by
  obtain ⟨s, hs, hcompletions, hcounts⟩ :=
    exists_counted_two [0, 0, 0, 0, 0xE1, 0x10, 0, 0] [0xE1, 0x10, 0, 0]
  have hthree : s.world.shared.counts = [1, 3] := hcounts.trans (by decide +kernel)
  have hiff := counted_iff hs
  rw [hcompletions, hthree] at hiff
  refine ⟨s, hs, hcompletions, hthree, fun h => ?_, hiff⟩
  have hone := h 1 (by rw [hthree]; decide)
  rw [hthree, hcompletions] at hone
  exact absurd hone (by decide +kernel)

end Moody

end TestBuffer
