import Mv88fxx81.Idma.CopySpec

/-!
# The two channels of the user copy

The copies use the channels in turn. Before its first two transfers a copy waits for no
channel, since the copy before it has waited for both. So every transfer is started on an
idle channel, in every series of copies.
-/

namespace Mv88fxx81.Idma

variable {m : Mapping} {ops ops' : List Op} {busy : Channel → Bool} {l : Loop}
  {chan : Channel} {chunk baseUaddr : ℕ} {toUser : Bool} {pages : List ℕ}

/-- The other channel is another one. -/
theorem Channel.next_ne (chan : Channel) : chan.next ≠ chan := by
  cases chan
  · decide
  · decide

/-- A channel is one of the two. -/
theorem Channel.eq_or_eq_next (chan other : Channel) : other = chan ∨ other = chan.next := by
  cases chan <;> cases other <;> simp [Channel.next]

/-- The busy channels after two series of operations. -/
theorem busyAfter_append : busyAfter (ops ++ ops') busy = busyAfter ops' (busyAfter ops busy) := by
  induction ops generalizing busy with
  | nil => rfl
  | cons op ops ih =>
    cases op with
    | cpu to_ from_ len => exact ih
    | dma chan to_ from_ physTo physFrom len => exact ih
    | wait chan => exact ih

/-- Two series of operations start their transfers on idle channels. -/
theorem startsIdle_append :
    StartsIdle (ops ++ ops') busy ↔ StartsIdle ops busy ∧ StartsIdle ops' (busyAfter ops busy) := by
  induction ops generalizing busy with
  | nil => exact (true_and _).symm.to_iff
  | cons op ops ih =>
    cases op with
    | cpu to_ from_ len => exact ih
    | dma chan to_ from_ physTo physFrom len =>
      simp only [List.cons_append, StartsIdle, busyAfter, ih, and_assoc]
    | wait chan => exact ih

/-- The channels of a copy that has come to a turn of its loop. -/
structure ChannelsAt (l : Loop) : Prop where
  startsIdle : StartsIdle l.log fun _ => false
  /-- The next channel has not been used twice in a row. -/
  current : l.index ≤ 1 → busyAfter l.log (fun _ => false) l.current = false
  /-- No channel has been used yet. -/
  other : l.index = 0 → busyAfter l.log (fun _ => false) l.current.next = false

/-- A piece that is copied keeps the channels in turn. -/
theorem ChannelsAt.copyChunk (hchannels : ChannelsAt l) :
    ChannelsAt (copyChunk m toUser pages baseUaddr chunk l) := by
  unfold Idma.copyChunk
  by_cases hmin : chunk < IDMA_MIN_COPY_CHUNK
  · rw [if_pos hmin]
    constructor
    · exact startsIdle_append.mpr ⟨hchannels.startsIdle, trivial⟩
    · intro hindex
      dsimp only
      rw [busyAfter_append]
      exact hchannels.current hindex
    · intro hindex
      dsimp only
      rw [busyAfter_append]
      exact hchannels.other hindex
  · rw [if_neg hmin]
    dsimp only
    by_cases hindex : l.index > 1
    · rw [if_pos hindex]
      constructor
      · rw [List.append_assoc, startsIdle_append]
        exact ⟨hchannels.startsIdle, Function.update_self .., trivial⟩
      · intro hle
        dsimp only at hle
        omega
      · intro hzero
        cases hzero
    · rw [if_neg hindex, List.append_nil]
      have hidle := hchannels.current (by omega)
      constructor
      · exact startsIdle_append.mpr ⟨hchannels.startsIdle, hidle, trivial⟩
      · intro hle
        dsimp only at hle ⊢
        rw [busyAfter_append]
        simp only [busyAfter, Function.update_of_ne (Channel.next_ne l.current)]
        exact hchannels.other (by omega)
      · intro hzero
        cases hzero

/-- The loop keeps the channels in turn. -/
theorem ChannelsAt.copyLoop {fuel : ℕ} (hchannels : ChannelsAt l) :
    ChannelsAt (copyLoop m toUser pages baseUaddr fuel l) := by
  induction fuel generalizing l with
  | zero => exact hchannels
  | succ fuel ih =>
    unfold Idma.copyLoop
    by_cases hn : l.n = 0
    · rw [if_pos hn]
      exact hchannels
    rw [if_neg hn]
    dsimp only
    have hload : ChannelsAt (loadChunks l) :=
      ⟨hchannels.startsIdle, hchannels.current, hchannels.other⟩
    by_cases hsize : chunkSize (loadChunks l) = 0
    · rw [if_pos hsize]
      exact hload
    rw [if_neg hsize]
    have hcopied : ChannelsAt (Idma.copyChunk m toUser pages baseUaddr
        (chunkSize (loadChunks l)) (loadChunks l)) := hload.copyChunk
    exact ih ⟨hcopied.startsIdle, hcopied.current, hcopied.other⟩

/-- After the waits both channels are idle. -/
theorem ChannelsAt.waitChannels (hchannels : ChannelsAt l) :
    StartsIdle (waitChannels l).log (fun _ => false) ∧
      ∀ chan, busyAfter (waitChannels l).log (fun _ => false) chan = false := by
  unfold Idma.waitChannels
  dsimp only
  by_cases hmany : l.index > 1
  · have hsome : l.index > 0 := by omega
    rw [if_pos hmany, if_pos hsome, List.append_assoc]
    refine ⟨startsIdle_append.mpr ⟨hchannels.startsIdle, trivial⟩, fun chan => ?_⟩
    rw [busyAfter_append]
    simp only [List.cons_append, List.nil_append, busyAfter]
    rcases Channel.eq_or_eq_next l.current chan with rfl | rfl
    · rw [Function.update_of_ne (Channel.next_ne l.current).symm, Function.update_self]
    · rw [Function.update_self]
  rw [if_neg hmany, List.append_nil]
  by_cases hsome : l.index > 0
  · rw [if_pos hsome]
    refine ⟨startsIdle_append.mpr ⟨hchannels.startsIdle, trivial⟩, fun chan => ?_⟩
    rw [busyAfter_append]
    simp only [busyAfter]
    rcases Channel.eq_or_eq_next l.current chan with rfl | rfl
    · rw [Function.update_of_ne (Channel.next_ne l.current).symm]
      exact hchannels.current (by omega)
    · rw [Function.update_self]
  · rw [if_neg hsome, List.append_nil]
    refine ⟨hchannels.startsIdle, fun chan => ?_⟩
    rcases Channel.eq_or_eq_next l.current chan with rfl | rfl
    · exact hchannels.current (by omega)
    · exact hchannels.other (by omega)

/-- Copies by the CPU do not touch the channels. -/
theorem cpuOnly_channels (hcpu : ∀ op ∈ ops, ∃ to_ from_ len, op = .cpu to_ from_ len) :
    StartsIdle ops busy ∧ busyAfter ops busy = busy := by
  induction ops with
  | nil => exact ⟨trivial, rfl⟩
  | cons op ops ih =>
    obtain ⟨to_, from_, len, rfl⟩ := hcpu op List.mem_cons_self
    exact ih (fun op hop => hcpu op (List.mem_cons_of_mem _ hop))

/-- The fixes of the two ends are copies by the CPU. -/
theorem fixEnd_cpuOnly (c : Call) :
    ∀ op ∈ (fixEnd (fixStart c)).log, ∃ to_ from_ len, op = .cpu to_ from_ len := by
  have hstart : ∀ op ∈ (fixStart c).log, ∃ to_ from_ len, op = .cpu to_ from_ len := by
    intro op hop
    unfold fixStart at hop
    dsimp only at hop
    by_cases haligned : c.to_ &&& 31 ≠ 0
    · rw [if_pos haligned] at hop
      exact ⟨_, _, _, List.mem_singleton.mp hop⟩
    · rw [if_neg haligned] at hop
      simp at hop
  intro op hop
  unfold fixEnd at hop
  dsimp only at hop
  by_cases haligned : add32 (fixStart c).to_ (fixStart c).n &&& 31 ≠ 0
  · rw [if_pos haligned] at hop
    rcases List.mem_append.mp hop with hop | hop
    · exact hstart op hop
    · exact ⟨_, _, _, List.mem_singleton.mp hop⟩
  · rw [if_neg haligned] at hop
    exact hstart op hop

/-- The copy of what is left does not touch the channels. -/
theorem copyRest_channels {to_ from_ n : ℕ} (hstarts : StartsIdle ops busy) :
    StartsIdle (copyRest to_ from_ n ops) busy ∧
      busyAfter (copyRest to_ from_ n ops) busy = busyAfter ops busy := by
  unfold copyRest
  by_cases hn : n = 0
  · rw [if_neg (not_not.mpr hn)]
    exact ⟨hstarts, rfl⟩
  · rw [if_pos hn]
    exact ⟨startsIdle_append.mpr ⟨hstarts, trivial⟩, busyAfter_append⟩

/-- A copy that finds both channels idle starts its transfers on idle channels and leaves
both idle. -/
theorem dmaCopy_channels (m : Mapping) (c : Call) (current : Channel) :
    StartsIdle (dmaCopy m c current).2 (fun _ => false) ∧
      ∀ chan, busyAfter (dmaCopy m c current).2 (fun _ => false) chan = false := by
  have hfix : StartsIdle (fixEnd (fixStart c)).log (fun _ => false) ∧
      busyAfter (fixEnd (fixStart c)).log (fun _ => false) = fun _ => false :=
    cpuOnly_channels (fixEnd_cpuOnly c)
  unfold dmaCopy
  dsimp only
  cases userPages m c (startLoop m c current (fixEnd (fixStart c))).uaddr
      (startLoop m c current (fixEnd (fixStart c))).n with
  | none =>
    dsimp only
    obtain ⟨hstarts, hbusy⟩ := copyRest_channels hfix.1
    refine ⟨hstarts, fun chan => ?_⟩
    rw [hbusy, hfix.2]
  | some pages =>
    dsimp only
    have hstart : ChannelsAt (startLoop m c current (fixEnd (fixStart c))) :=
      ⟨hfix.1, fun _ => congrFun hfix.2 _, fun _ => congrFun hfix.2 _⟩
    obtain ⟨hstarts, hidle⟩ := (hstart.copyLoop).waitChannels
    obtain ⟨hstarts', hbusy⟩ := copyRest_channels hstarts
    refine ⟨hstarts', fun chan => ?_⟩
    rw [hbusy]
    exact hidle chan

/-- After every series of copies both channels are idle. -/
theorem runCopies_idle (m : Mapping) (calls : List Call) (chan : Channel) :
    busyAfter (runCopies m calls).2 (fun _ => false) chan = false := by
  induction calls generalizing chan with
  | nil => rfl
  | cons c calls ih =>
    have hbefore : busyAfter (runCopies m calls).2 (fun _ => false) = fun _ => false := funext ih
    unfold runCopies
    dsimp only
    rw [busyAfter_append, hbefore]
    exact (dmaCopy_channels m c _).2 chan

end Mv88fxx81.Idma
