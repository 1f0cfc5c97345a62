import Mv88fxx81.Cesa.QueueRun

/-!
# The ranges of accepted commands

A command names ranges of its source: the data to be encrypted and authenticated, the digest
and an IV of the user. `mvCesaFragParamCheck` compares the first two with the size of the
source. It is called for commands that need fragmentation only, and nothing compares the
other two.
-/

namespace Mv88fxx81.Cesa

open TransitionSystem

/-- The data to be encrypted lies in the source. The sum is one of natural numbers, so that
it cannot wrap. -/
def CryptoInside (sa : SA) (cmd : Command) : Prop :=
  operationOf sa.config ≠ macOnly → cmd.cryptoOffset.toNat + cmd.cryptoLength.toNat ≤ cmd.size

/-- The data to be authenticated lies in the source. -/
def MacInside (sa : SA) (cmd : Command) : Prop :=
  operationOf sa.config ≠ cryptoOnly → cmd.macOffset.toNat + cmd.macLength.toNat ≤ cmd.size

/-- The digest lies in the source. -/
def DigestInside (sa : SA) (cmd : Command) : Prop :=
  operationOf sa.config ≠ cryptoOnly → cmd.digestOffset.toNat + sa.digestSize ≤ cmd.size

/-- The IV lies in the source if it is one of the user. The counter block of counter mode
always is. -/
def IvInside (sa : SA) (cmd : Command) : Prop :=
  operationOf sa.config ≠ macOnly → sa.ctrMode = true ∨ cmd.ivFromUser ≠ 0 →
    cmd.ivOffset.toNat + (if sa.ctrMode then 16 else sa.cryptoIvSize) ≤ cmd.size

/-- All ranges that the operation of the session uses lie in the source. -/
structure RangesInside (sa : SA) (cmd : Command) : Prop where
  crypto : CryptoInside sa cmd
  mac : MacInside sa cmd
  digest : DigestInside sa cmd
  iv : IvInside sa cmd

/-- The data of the command is processed in fragments. -/
def Fragmented (sa : SA) (cmd : Command) : Prop := sa.ctrMode = false ∧ bothBufSize < cmd.size

/-- The command was put into the queue. -/
def Accepted (status : Status) : Prop := status = .ok ∨ status = .noMore

section Checks

variable {q : Queue} {sa : SA} {cmd : Command} {is5182 : Bool}

/-- What `mvCesaFragParamCheck` says about the ranges. -/
theorem mvCesaFragParamCheck_inside (hcheck : mvCesaFragParamCheck is5182 sa cmd = .ok) :
    CryptoInside sa cmd ∧ MacInside sa cmd := by
  unfold mvCesaFragParamCheck at hcheck
  dsimp only at hcheck
  have hauth : (if operationOf sa.config ≠ cryptoOnly then fragParamCheckAuth cmd else .ok) =
      Status.ok := by
    by_contra hne
    rw [if_pos hne] at hcheck
    exact hne hcheck
  rw [if_neg (not_not_intro hauth)] at hcheck
  have hcrypto : (if operationOf sa.config ≠ macOnly then fragParamCheckCrypto sa cmd else .ok) =
      Status.ok := by
    by_contra hne
    rw [if_pos hne] at hcheck
    exact hne hcheck
  constructor
  · intro hop
    rw [if_pos hop] at hcrypto
    unfold fragParamCheckCrypto at hcrypto
    dsimp only at hcrypto
    split_ifs at hcrypto with hoffset hend
    omega
  · intro hop
    rw [if_pos hop] at hauth
    unfold fragParamCheckAuth at hauth
    dsimp only at hauth
    split_ifs at hauth with hoffset hend
    omega

/-- A command that is put into the queue in fragments has passed the checks for it. -/
theorem actionQueue_accepted (haccept : Accepted (actionQueue cmd sa q).1)
    (hlarge : bothBufSize < cmd.size) : mvCesaFragParamCheck q.is5182 sa cmd = .ok := by
  unfold actionQueue at haccept
  cases hmode : fragModeOf q.is5182 sa cmd with
  | error status =>
    rw [hmode] at haccept
    rcases fragModeOf_error hmode with rfl | rfl
    · rcases haccept with h | h <;> cases h
    · rcases haccept with h | h <;> cases h
  | ok fragMode =>
    unfold fragModeOf at hmode
    rw [if_neg (by omega)] at hmode
    by_contra hne
    dsimp only at hmode
    rw [if_pos hne] at hmode
    cases hmode

/-- A fragmented command that is accepted has passed the checks for fragmentation. -/
theorem mvCesaAction_fragmented {ctrMemory : Option CtrMemory}
    (haccept : Accepted (mvCesaAction cmd ctrMemory q).1)
    (hfragmented : Fragmented (q.keys.sad cmd.sid) cmd) :
    mvCesaFragParamCheck q.is5182 (q.keys.sad cmd.sid) cmd = .ok := by
  obtain ⟨hctr, hlarge⟩ := hfragmented
  unfold mvCesaAction at haccept
  dsimp only at haccept
  by_cases hfree : q.resources = 0
  · rw [if_pos hfree] at haccept
    rcases haccept with h | h <;> cases h
  rw [if_neg hfree] at haccept
  by_cases hsid : cmd.sid ≥ q.keys.maxSA ∨ ¬ (q.keys.sad cmd.sid).valid = true
  · rw [if_pos hsid] at haccept
    rcases haccept with h | h <;> cases h
  rw [if_neg hsid, if_neg (by rw [hctr]; decide)] at haccept
  rcases mvCesaParamCheck_cases (q.keys.sad cmd.sid) cmd with hok | hbad
  · rw [if_neg (not_not_intro hok)] at haccept
    exact actionQueue_accepted haccept hlarge
  · rw [hbad, if_pos (by decide)] at haccept
    rcases haccept with h | h <;> cases h

end Checks

/-- A command of 64 bytes is accepted with 1664 bytes to be encrypted. -/
theorem mvCesaAction_outside :
    ∃ trace q, Run (queueStep plainEnv) (fun _ _ => True) (mvCesaInit false 4 2) trace q ∧
      (q.reqs 0).state = .process ∧ (q.reqs 0).cmd.size = 64 ∧
      ¬ CryptoInside (q.reqs 0).accepted (q.reqs 0).cmd := by
  have hrun : Run (queueStep plainEnv) (fun _ _ => True) (mvCesaInit false 4 2) _ _ :=
    Run.of_exec [.sessionOpen (desSession 1),
      .action { plainCommand 1 64 with cryptoLength := 1664 } none] rfl
  refine ⟨_, _, hrun, rfl, rfl, fun hinside => ?_⟩
  exact absurd (hinside (by decide)) (by decide)

/-- The ranges of an accepted command lie in its source exactly when those do that are not
checked: the digest and the IV, and for a command that is not fragmented the data to be
encrypted and authenticated. -/
theorem mvCesaAction_rangesInside_iff {q : Queue} {cmd : Command} {ctrMemory : Option CtrMemory}
    (haccept : Accepted (mvCesaAction cmd ctrMemory q).1) :
    RangesInside (q.keys.sad cmd.sid) cmd ↔
      DigestInside (q.keys.sad cmd.sid) cmd ∧ IvInside (q.keys.sad cmd.sid) cmd ∧
        (¬ Fragmented (q.keys.sad cmd.sid) cmd →
          CryptoInside (q.keys.sad cmd.sid) cmd ∧ MacInside (q.keys.sad cmd.sid) cmd) := by
  constructor
  · rintro ⟨hcrypto, hmac, hdigest, hiv⟩
    exact ⟨hdigest, hiv, fun _ => ⟨hcrypto, hmac⟩⟩
  · rintro ⟨hdigest, hiv, hunchecked⟩
    by_cases hfragmented : Fragmented (q.keys.sad cmd.sid) cmd
    · obtain ⟨hcrypto, hmac⟩ :=
        mvCesaFragParamCheck_inside (mvCesaAction_fragmented haccept hfragmented)
      exact ⟨hcrypto, hmac, hdigest, hiv⟩
    · obtain ⟨hcrypto, hmac⟩ := hunchecked hfragmented
      exact ⟨hcrypto, hmac, hdigest, hiv⟩

/-- A fragmented command is accepted with its ranges in the source. -/
theorem mvCesaAction_rangesInside_iff_fragmented :
    ∃ q, Accepted (mvCesaAction (plainCommand 1 4000) none q).1 ∧
      RangesInside (q.keys.sad (plainCommand 1 4000).sid) (plainCommand 1 4000) := by
  have haccept : Accepted (mvCesaAction (plainCommand 1 4000) none
      { mvCesaInit false 4 2 with
        keys := (mvCesaSessionOpen plainEnv (desSession 1) (keyStoreInit 4)).2.2 }).1 :=
    Or.inl rfl
  refine ⟨_, haccept, (mvCesaAction_rangesInside_iff haccept).mpr ⟨?_, ?_, ?_⟩⟩
  · exact fun hop => absurd rfl hop
  · exact fun _ huser => absurd huser (by decide)
  · exact fun hshort => absurd ⟨rfl, by decide⟩ hshort

end Mv88fxx81.Cesa
