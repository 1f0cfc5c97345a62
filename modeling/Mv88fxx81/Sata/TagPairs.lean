import Mv88fxx81.Lib.Run
import Mv88fxx81.Sata.ChannelAccounts
import Mv88fxx81.Sata.ChannelStep

/-!
# The two tags of a command

An adapter of the first two generations has one pool of device tags, with a tag more than the pool
of host tags. Tags are taken from both pools and put back to both in any order. The pool of device
tags is at all times the pool of host tags on top of its own last tag, so that the two tags of a
command are equal.
-/

namespace Mv88fxx81.Sata.Core

open TransitionSystem

/-- `initChannelTags`. -/
def initChannelTags (cfg : ChannelConfig) (ch : Channel) : Channel :=
  { ch with
    hostTagsPool := initTagsStack cfg.hostTagsNum
    deviceTagsPool := fun _ => initTagsStack tagsPerPool }

variable {cfg : ChannelConfig} {ch ch' : Channel}

/-- The calls that take and put back tags. -/
inductive TagCall
  | getTag (pmPort : Fin 16)
  | releaseTag (pmPort : Fin 16) (hostTag deviceTag : ℕ)
  deriving DecidableEq, Repr

/-- A channel, with the pairs of tags that have been taken and not been put back. -/
structure TagHolder where
  channel : Channel
  held : List (ℕ × ℕ)

/-- A call, with the pair of tags that it returns. -/
def tagStep (cfg : ChannelConfig) (s : TagHolder) : TagCall → Option (Option (ℕ × ℕ) × TagHolder)
  | .getTag pmPort =>
    match getTag cfg s.channel pmPort with
    | none => some (none, s)
    | some (hostTag, deviceTag, ch) =>
      some (some (hostTag, deviceTag), ⟨ch, (hostTag, deviceTag) :: s.held⟩)
  | .releaseTag pmPort hostTag deviceTag =>
    some (none, ⟨releaseTag cfg s.channel pmPort hostTag deviceTag,
      s.held.erase (hostTag, deviceTag)⟩)

/-- Only a pair that is held is put back. -/
def ReleasesHeld (s : TagHolder) : TagCall → Prop
  | .getTag _ => True
  | .releaseTag _ hostTag deviceTag => (hostTag, deviceTag) ∈ s.held

instance (s : TagHolder) : (call : TagCall) → Decidable (ReleasesHeld s call)
  | .getTag _ => isTrue trivial
  | .releaseTag _ hostTag deviceTag =>
    inferInstanceAs (Decidable ((hostTag, deviceTag) ∈ s.held))

/-- The free device tags are those of the host on top of one tag more, no tag of the host is lost,
and the tags of each pair that is held are equal. -/
structure InLockStep (s : TagHolder) : Prop where
  pools : (s.channel.deviceTagsPool 0).free = 31 :: s.channel.hostTagsPool.free
  count : s.channel.hostTagsPool.top + s.held.length = 31
  held : ∀ pair ∈ s.held, pair.1 = pair.2

/-- Where the adapter has a single pool, it has no long queues. -/
theorem hostTagsNum_of_generation (hgeneration : cfg.generation ≠ .genIIE) :
    cfg.hostTagsNum = 31 := by
  unfold ChannelConfig.hostTagsNum
  cases huse : cfg.use128Entries with
  | true => exact absurd (cfg.entries huse) hgeneration
  | false => rfl

/-- The pools are in lock step at first. -/
theorem initChannelTags_inLockStep (hgeneration : cfg.generation ≠ .genIIE) (ch : Channel) :
    InLockStep ⟨initChannelTags cfg ch, []⟩ := by
  have hnum := hostTagsNum_of_generation hgeneration
  constructor
  · change (initTagsStack 32).free = 31 :: (initTagsStack cfg.hostTagsNum).free
    rw [hnum]
    decide
  · change cfg.hostTagsNum + 0 = 31
    rw [hnum]
  · exact fun pair hpair => absurd hpair List.not_mem_nil

/-- The pool that a port uses. -/
theorem tagPool_of_generation (hgeneration : cfg.generation ≠ .genIIE) (pmPort : Fin 16) :
    tagPool cfg pmPort = 0 := by
  unfold tagPool
  rw [if_neg hgeneration]

/-- Pools in lock step have as many device tags as host tags, and one more. -/
theorem InLockStep.device_top {s : TagHolder} (hlock : InLockStep s) :
    (s.channel.deviceTagsPool 0).top = s.channel.hostTagsPool.top + 1 := by
  have hlength := congrArg List.length hlock.pools
  rwa [List.length_cons, TagsStack.free_length, TagsStack.free_length] at hlength

/-- Taking tags gives an equal pair, and keeps the pools in lock step. -/
theorem InLockStep.getTag {s : TagHolder} (hlock : InLockStep s)
    (hgeneration : cfg.generation ≠ .genIIE) {pmPort : Fin 16} {hostTag deviceTag : ℕ}
    (hget : Core.getTag cfg s.channel pmPort = some (hostTag, deviceTag, ch')) :
    hostTag = deviceTag ∧ InLockStep ⟨ch', (hostTag, deviceTag) :: s.held⟩ := by
  have htop := hlock.device_top
  have hcount := hlock.count
  unfold Core.getTag at hget
  dsimp only at hget
  rw [tagPool_of_generation hgeneration] at hget
  by_cases hempty : s.channel.hostTagsPool.top = 0 ∨ (s.channel.deviceTagsPool 0).top = 0
  · rw [if_pos hempty] at hget
    exact nomatch hget
  rw [if_neg hempty] at hget
  obtain ⟨rfl, rfl, rfl⟩ : (popTag s.channel.hostTagsPool).1 = hostTag ∧
      (popTag (s.channel.deviceTagsPool 0)).1 = deviceTag ∧ _ = ch' := by
    simpa only [Option.some.injEq, Prod.mk.injEq] using hget
  have hhost : (popTag s.channel.hostTagsPool).2.free ++ [(popTag s.channel.hostTagsPool).1] =
      s.channel.hostTagsPool.free := popTag_free (by omega) (by omega)
  have hdevice : (popTag (s.channel.deviceTagsPool 0)).2.free ++
      [(popTag (s.channel.deviceTagsPool 0)).1] = (s.channel.deviceTagsPool 0).free :=
    popTag_free (by omega) (by omega)
  rw [hlock.pools, ← hhost, ← List.cons_append] at hdevice
  obtain ⟨hpools, htags⟩ := List.append_inj' hdevice rfl
  have hequal := (List.cons.inj htags).1.symm
  refine ⟨hequal, ?_, ?_, ?_⟩
  · dsimp only
    rw [Function.update_self, hpools]
  · have hpop : (popTag s.channel.hostTagsPool).2.top + 1 = s.channel.hostTagsPool.top := by
      rw [← TagsStack.free_length, ← TagsStack.free_length, ← hhost, List.length_append]
      rfl
    dsimp only
    rw [List.length_cons]
    omega
  · intro pair hpair
    rcases List.mem_cons.mp hpair with rfl | hpair
    · exact hequal
    · exact hlock.held pair hpair

/-- Putting back a pair that is held keeps the pools in lock step. -/
theorem InLockStep.releaseTag {s : TagHolder} (hlock : InLockStep s)
    (hgeneration : cfg.generation ≠ .genIIE) {pmPort : Fin 16} {hostTag deviceTag : ℕ}
    (hheld : (hostTag, deviceTag) ∈ s.held) :
    InLockStep ⟨Core.releaseTag cfg s.channel pmPort hostTag deviceTag,
      s.held.erase (hostTag, deviceTag)⟩ := by
  have htop := hlock.device_top
  have hcount := hlock.count
  have hequal : hostTag = deviceTag := hlock.held _ hheld
  have hlength := List.length_erase_add_one hheld
  have hhost : (pushTag s.channel.hostTagsPool hostTag).free =
      s.channel.hostTagsPool.free ++ [hostTag] := pushTag_free (by omega) hostTag
  have hdevice : (pushTag (s.channel.deviceTagsPool 0) deviceTag).free =
      (s.channel.deviceTagsPool 0).free ++ [deviceTag] := pushTag_free (by omega) deviceTag
  unfold Core.releaseTag
  dsimp only
  rw [tagPool_of_generation hgeneration]
  constructor
  · dsimp only
    rw [Function.update_self, hhost, hdevice, hlock.pools, hequal]
    rfl
  · have hpush : (pushTag s.channel.hostTagsPool hostTag).top = s.channel.hostTagsPool.top + 1 := by
      rw [← TagsStack.free_length, hhost, List.length_append, TagsStack.free_length]
      rfl
    dsimp only
    omega
  · exact fun pair hpair => hlock.held pair (List.mem_of_mem_erase hpair)

/-- A call keeps the pools in lock step, and returns an equal pair if it returns one. -/
theorem InLockStep.step {s s' : TagHolder} (hlock : InLockStep s)
    (hgeneration : cfg.generation ≠ .genIIE) {call : TagCall} {answer : Option (ℕ × ℕ)}
    (hheld : ReleasesHeld s call) (hstep : tagStep cfg s call = some (answer, s')) :
    InLockStep s' ∧ ∀ pair, answer = some pair → pair.1 = pair.2 := by
  cases call with
  | getTag pmPort =>
    unfold tagStep at hstep
    dsimp only at hstep
    cases hget : Core.getTag cfg s.channel pmPort with
    | none =>
      rw [hget] at hstep
      cases hstep
      exact ⟨hlock, fun pair hpair => nomatch hpair⟩
    | some taken =>
      obtain ⟨hostTag, deviceTag, ch'⟩ := taken
      rw [hget] at hstep
      cases hstep
      obtain ⟨hequal, hlock'⟩ := hlock.getTag hgeneration hget
      refine ⟨hlock', fun pair hpair => ?_⟩
      cases hpair
      exact hequal
  | releaseTag pmPort hostTag deviceTag =>
    cases hstep
    exact ⟨hlock.releaseTag hgeneration hheld, fun pair hpair => nomatch hpair⟩

/-- On an adapter of the first two generations, each call of `getTag` that returns tags returns an
equal pair, in whatever order the pairs are put back. -/
theorem getTag_equal (hgeneration : cfg.generation ≠ .genIIE) (ch : Channel)
    {trace : List (TagCall × Option (ℕ × ℕ))} {s : TagHolder}
    (hrun : Run (tagStep cfg) ReleasesHeld ⟨initChannelTags cfg ch, []⟩ trace s) :
    ∀ call hostTag deviceTag, (call, some (hostTag, deviceTag)) ∈ trace → hostTag = deviceTag := by
  have hall : InLockStep s ∧ ∀ answer ∈ trace, ∀ pair, answer.2 = some pair → pair.1 = pair.2 := by
    induction hrun with
    | start =>
      exact ⟨initChannelTags_inLockStep hgeneration ch, fun _ h => absurd h List.not_mem_nil⟩
    | next _ hheld hstep ih =>
      obtain ⟨hlock, hequal⟩ := ih.1.step hgeneration hheld hstep
      refine ⟨hlock, fun answer hanswer pair hpair => ?_⟩
      rcases List.mem_append.mp hanswer with hanswer | hanswer
      · exact ih.2 answer hanswer pair hpair
      · rw [List.mem_singleton.mp hanswer] at hpair
        exact hequal pair hpair
  exact fun call hostTag deviceTag hmem => hall.2 _ hmem _ rfl

/-- A channel of the second generation. -/
def genIIConfig : ChannelConfig where
  generation := .genII
  queuedDma := .queued
  fbsEnabled := false
  use128Entries := false
  drqDataBlockSize := 1
  entries := nofun

/-- Three pairs are taken, two of them are put back in the order in which they were taken, and
two pairs are taken again. -/
def tagCalls : List TagCall :=
  [.getTag 0, .getTag 3, .getTag 0, .releaseTag 0 0 0, .releaseTag 3 1 1, .getTag 1, .getTag 2]

/-- The pairs that are taken again are equal. -/
theorem tagCalls_equal : ∃ trace s,
    Run (tagStep genIIConfig) ReleasesHeld
        ⟨initChannelTags genIIConfig (configuredChannel genIIConfig), []⟩ trace s ∧
      trace.map (·.2) =
        [some (0, 0), some (1, 1), some (2, 2), none, none, some (1, 1), some (0, 0)] ∧
      ∀ call hostTag deviceTag, (call, some (hostTag, deviceTag)) ∈ trace →
        hostTag = deviceTag := by
  have hpairs : (exec (tagStep genIIConfig) ReleasesHeld
      ⟨initChannelTags genIIConfig (configuredChannel genIIConfig), []⟩ tagCalls).map
        (fun r => r.1.map (·.2)) =
      some [some (0, 0), some (1, 1), some (2, 2), none, none, some (1, 1), some (0, 0)] := by
    decide
  rw [Option.map_eq_some_iff] at hpairs
  obtain ⟨⟨trace, s⟩, hexec, hpairs⟩ := hpairs
  have hrun := Run.of_exec tagCalls hexec
  exact ⟨trace, s, hrun, hpairs, getTag_equal (by decide) (configuredChannel genIIConfig) hrun⟩

end Mv88fxx81.Sata.Core
