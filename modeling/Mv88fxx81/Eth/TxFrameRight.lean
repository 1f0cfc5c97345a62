import Mv88fxx81.Eth.TxFrame

/-!
# When a frame is right

Behind the start of `egiga_tx` and behind the pad, the fragment list stands for the packet, its
first entry for the linear part. A header or a trailer that is an entry of its own leaves the
socket buffer alone; one that is put into the socket buffer changes it, and the size of the packet
is no longer that of the list.
-/

namespace Mv88fxx81.Eth

open Gather

variable {binding : Binding} {skb : SkBuff} {pad : List (BitVec 8)} {n : ℕ} {a : TxAssembly}

namespace TxAssembly

/-- An entry that has been written. -/
theorem writeBuf_self (i : ℕ) (info : TxBufInfo) : (a.writeBuf i info).txBufInfoArr i = info :=
  Function.update_self _ _ _

/-- The other entries. -/
theorem writeBuf_of_ne {i j : ℕ} (info : TxBufInfo) (hj : j ≠ i) :
    (a.writeBuf i info).txBufInfoArr j = a.txBufInfoArr j :=
  Function.update_of_ne hj _ _

/-- The loop over the page fragments changes entries only. -/
theorem fillFrags_keeps (i : ℕ) (frags : List (List (BitVec 8))) :
    (fillFrags i frags a).skb = a.skb ∧ (fillFrags i frags a).txPktInfo = a.txPktInfo := by
  induction frags generalizing i a with
  | nil => exact ⟨rfl, rfl⟩
  | cons frag frags ih => exact ih (i + 1)

/-- The loop leaves the entries before its first one. -/
theorem fillFrags_before (i : ℕ) (frags : List (List (BitVec 8))) {j : ℕ} (hj : j < i + 2) :
    (fillFrags i frags a).txBufInfoArr j = a.txBufInfoArr j := by
  induction frags generalizing i a with
  | nil => rfl
  | cons frag frags ih =>
    rw [fillFrags, ih (i + 1) (by omega)]
    exact writeBuf_of_ne _ (by omega)

/-- The loop writes an entry for each fragment. -/
theorem fillFrags_entry (i : ℕ) {frags : List (List (BitVec 8))} {k : ℕ} {frag : List (BitVec 8)}
    (hfrag : frags[k]? = some frag) :
    (fillFrags i frags a).txBufInfoArr (i + 2 + k) = ⟨.page (i + k), 0, frag.length⟩ := by
  induction frags generalizing i k a with
  | nil => cases hfrag
  | cons first frags ih =>
    rw [fillFrags]
    cases k with
    | zero =>
      obtain rfl : first = frag := by
        rw [List.getElem?_cons_zero] at hfrag
        exact Option.some.inj hfrag
      rw [fillFrags_before (i + 1) frags (by omega)]
      exact writeBuf_self _ _
    | succ k =>
      rw [List.getElem?_cons_succ] at hfrag
      have hentry := ih (i + 1) (a := a.writeBuf (i + 2) ⟨.page i, 0, first.length⟩) hfrag
      have hindex : i + 2 + (k + 1) = i + 1 + 2 + k := by omega
      have hpage : i + (k + 1) = i + 1 + k := by omega
      rw [hindex, hpage, hentry]

/-- The entries that the loop writes. -/
theorem fillFrags_written (i : ℕ) {frags : List (List (BitVec 8))} {j : ℕ}
    (hj : j ∈ (fillFrags i frags a).written) : j ∈ a.written ∨ j < i + 2 + frags.length := by
  induction frags generalizing i a with
  | nil => exact Or.inl hj
  | cons frag frags ih =>
    rw [fillFrags] at hj
    rw [List.length_cons]
    rcases ih (i + 1) hj with hmem | hlt
    · rcases List.mem_append.mp hmem with hmem | hmem
      · exact Or.inl hmem
      · rw [List.mem_singleton] at hmem
        right
        omega
    · right
      omega

/-- The list stands for a packet and a pad, in `n` entries behind that of the linear part. -/
structure Listed (binding : Binding) (skb : SkBuff) (pad : List (BitVec 8)) (n : ℕ)
    (a : TxAssembly) : Prop where
  skb_eq : a.skb = skb
  pFrags : a.txPktInfo.pFrags = 1
  numFrags : a.txPktInfo.numFrags = n + 1
  pktSize : a.txPktInfo.pktSize = BitVec.ofNat 16 (skb.len + pad.length)
  first : a.txBufInfoArr 1 = ⟨.linear, skb.data, skb.headlen⟩
  rest_object : ∀ i < n, (a.txBufInfoArr (2 + i)).object ≠ .linear
  rest : gather (a.bufBytes binding) a.txBufInfoArr 2 n = skb.frags.flatten ++ pad
  written : ∀ i ∈ a.written, i < n + 2

/-- The bytes of the linear part. -/
theorem bufBytes_linear (skb : SkBuff) (hskb : a.skb = skb) :
    a.bufBytes binding ⟨.linear, skb.data, skb.headlen⟩ = skb.linear := by
  unfold bufBytes objectBytes SkBuff.area SkBuff.data SkBuff.headlen
  rw [hskb, List.append_assoc]
  dsimp only
  rw [List.drop_left, List.take_left]

/-- The bytes of a fragment. -/
theorem bufBytes_page {i : ℕ} {frag : List (BitVec 8)} (hfrag : a.skb.frags[i]? = some frag) :
    a.bufBytes binding ⟨.page i, 0, frag.length⟩ = frag := by
  unfold bufBytes objectBytes
  dsimp only
  rw [hfrag, Option.getD_some, List.drop_zero, List.take_length]

/-- The bytes of an entry outside of the linear area stay when the linear area changes. -/
theorem bufBytes_of_ne_linear {a b : TxAssembly} {info : TxBufInfo}
    (hfrags : b.skb.frags = a.skb.frags) (hinfo : info.object ≠ .linear) :
    b.bufBytes binding info = a.bufBytes binding info := by
  unfold bufBytes objectBytes
  rw [hfrags]
  cases hobject : info.object with
  | linear => exact absurd hobject hinfo
  | page i => rfl
  | zeroPad => rfl
  | header => rfl
  | trailer => rfl

/-- The start of `egiga_tx` lists the packet. -/
theorem initPktInfo_listed (ha : a.written = []) :
    Listed binding a.skb [] a.skb.frags.length a.initPktInfo := by
  unfold initPktInfo
  dsimp only
  by_cases hfrags : a.skb.frags.length = 0
  · rw [if_pos hfrags, hfrags]
    have hnil := List.length_eq_zero_iff.mp hfrags
    have hlen : a.skb.len = a.skb.headlen := by
      unfold SkBuff.len SkBuff.headlen
      rw [hnil]
      rfl
    refine ⟨rfl, rfl, rfl, rfl, ?_, ?_, ?_, ?_⟩
    · rw [setNumFrags_txBufInfoArr, writeBuf_self, hlen]
    · intro i hi
      omega
    · rw [hnil]
      rfl
    · intro i hi
      simp only [setNumFrags, writeBuf, ha, List.nil_append, List.mem_singleton] at hi
      omega
  · rw [if_neg hfrags]
    generalize hb : writeBuf _ 1 ⟨.linear, a.skb.data, a.skb.headlen⟩ = b
    have hbSkb : b.skb = a.skb := by rw [← hb]; rfl
    have hbPkt : b.txPktInfo =
        ⟨1, a.txPktInfo.numFrags, BitVec.ofNat 16 a.skb.len⟩ := by rw [← hb]; rfl
    have hbFirst : b.txBufInfoArr 1 = ⟨.linear, a.skb.data, a.skb.headlen⟩ := by
      rw [← hb]
      exact writeBuf_self _ _
    have hbWritten : b.written = [1] := by
      rw [← hb]
      simp only [writeBuf, ha, List.nil_append]
    rw [hbSkb]
    obtain ⟨hskb, hpkt⟩ := fillFrags_keeps (a := b) 0 a.skb.frags
    have hentry : ∀ i frag, a.skb.frags[i]? = some frag →
        (fillFrags 0 a.skb.frags b).txBufInfoArr (2 + i) = ⟨.page i, 0, frag.length⟩ := by
      intro i frag hfrag
      have h := fillFrags_entry (a := b) 0 hfrag
      rwa [Nat.zero_add, Nat.zero_add] at h
    refine ⟨hskb.trans hbSkb, ?_, rfl, ?_, ?_, ?_, ?_, ?_⟩
    · simp only [setNumFrags, hpkt, hbPkt]
    · simp only [setNumFrags, hpkt, hbPkt, List.length_nil, Nat.add_zero]
    · rw [← hbFirst]
      exact fillFrags_before 0 _ (by omega)
    · intro i hi
      have h := hentry i _ (List.getElem?_eq_getElem hi)
      simp only [setNumFrags, h, ne_eq, reduceCtorEq, not_false_eq_true]
    · rw [List.append_nil]
      apply gather_eq_flatten
      intro i frag hfrag
      have h := hentry i frag hfrag
      simp only [setNumFrags, h]
      apply bufBytes_page
      dsimp only
      rw [hskb, hbSkb]
      exact hfrag
    · intro i hi
      rcases fillFrags_written 0 hi with hmem | hlt
      · rw [hbWritten, List.mem_singleton] at hmem
        omega
      · omega

/-- The bytes of the entries depend on the socket buffer only. -/
theorem bufBytes_of_skb (binding : Binding) {a b : TxAssembly} (hskb : b.skb = a.skb) :
    b.bufBytes binding = a.bufBytes binding := by
  funext info
  unfold bufBytes objectBytes
  rw [hskb]

/-- The bytes of the pad. -/
theorem bufBytes_zeroPad (len : ℕ) :
    a.bufBytes binding ⟨.zeroPad, len, MIN_ETH_PACKET_LEN - len⟩ =
      List.replicate (MIN_ETH_PACKET_LEN - len) 0 := by
  unfold bufBytes objectBytes
  dsimp only
  rw [List.drop_replicate, List.take_replicate, Nat.min_self]

/-- The bytes of a header. -/
theorem bufBytes_header : a.bufBytes binding ⟨.header, 0, HEADER_SIZE⟩ = binding.header := by
  unfold bufBytes objectBytes
  dsimp only
  rw [List.drop_zero, ← binding.header_length, List.take_length]

/-- The bytes of a trailer. -/
theorem bufBytes_trailer : a.bufBytes binding ⟨.trailer, 0, TRAILER_SIZE⟩ = binding.trailer := by
  unfold bufBytes objectBytes
  dsimp only
  rw [List.drop_zero, ← binding.trailer_length, List.take_length]

/-- An entry for the header before the first entry. -/
theorem frame_prepend {c : TxAssembly} {m : ℕ} (hskb : c.skb = a.skb)
    (harr : c.txBufInfoArr = Function.update a.txBufInfoArr 0 ⟨.header, 0, HEADER_SIZE⟩)
    (hcFrags : c.txPktInfo.pFrags = 0) (hpFrags : a.txPktInfo.pFrags = 1)
    (hnumFrags : a.txPktInfo.numFrags = m) (hcNum : c.txPktInfo.numFrags = m + 1) :
    c.frame binding = binding.header ++ a.frame binding := by
  unfold frame
  rw [hcFrags, hcNum, harr, gather_update_left, bufBytes_header,
    bufBytes_of_skb binding hskb, hpFrags, hnumFrags]

/-- An entry for the trailer behind the last entry. -/
theorem frame_concat {c : TxAssembly} {m : ℕ} (hskb : c.skb = a.skb)
    (harr : c.txBufInfoArr = Function.update a.txBufInfoArr (1 + m) ⟨.trailer, 0, TRAILER_SIZE⟩)
    (hcFrags : c.txPktInfo.pFrags = 1) (hpFrags : a.txPktInfo.pFrags = 1)
    (hnumFrags : a.txPktInfo.numFrags = m) (hcNum : c.txPktInfo.numFrags = m + 1) :
    c.frame binding = a.frame binding ++ binding.trailer := by
  unfold frame
  rw [hcFrags, hcNum, harr, gather_update_succ, bufBytes_trailer,
    bufBytes_of_skb binding hskb, hpFrags, hnumFrags]

/-- The frame of the list is the packet with the pad. -/
theorem Listed.frame (hlisted : Listed binding skb pad n a) :
    a.frame binding = skb.bytes ++ pad := by
  unfold TxAssembly.frame
  rw [hlisted.pFrags, hlisted.numFrags, gather_succ_left, hlisted.first,
    bufBytes_linear skb hlisted.skb_eq, hlisted.rest, ← List.append_assoc]
  rfl

/-- The pad is added to a packet that is too short. -/
theorem Listed.addZeroPad (hlen : skb.len < 2 ^ 16)
    (hlisted : Listed binding skb [] skb.frags.length a) :
    Listed binding skb (txPad skb) (txEntries skb - 1) a.addZeroPad := by
  have hsize : a.txPktInfo.pktSize.toNat = skb.len := by
    rw [hlisted.pktSize, BitVec.toNat_ofNat, List.length_nil, Nat.add_zero,
      Nat.mod_eq_of_lt hlen]
  unfold TxAssembly.addZeroPad txPad txEntries
  dsimp only
  rw [hsize, writeBuf_txPktInfo, hlisted.numFrags, hlisted.skb_eq]
  by_cases hshort : skb.len < MIN_ETH_PACKET_LEN
  · rw [if_pos hshort, if_pos hshort]
    generalize hentries : skb.frags.length = entries at hlisted ⊢
    have hindex : entries + 1 + 1 = 2 + entries := by omega
    have hcount : entries + 1 + 1 - 1 = entries + 1 := by omega
    have hother : ∀ i < entries, ((a.writeBuf (entries + 1 + 1)
        ⟨.zeroPad, skb.len, MIN_ETH_PACKET_LEN - skb.len⟩).txBufInfoArr (2 + i)) =
          a.txBufInfoArr (2 + i) := fun i hi => writeBuf_of_ne _ (by omega)
    rw [hcount]
    refine ⟨hlisted.skb_eq, hlisted.pFrags, rfl, ?_, ?_, ?_, ?_, ?_⟩
    · rw [List.length_replicate, BitVec.ofNat_add, setNumFrags, addSize]
      dsimp only
      rw [writeBuf_txPktInfo, hlisted.pktSize, List.length_nil, Nat.add_zero]
    · rw [setNumFrags_txBufInfoArr, addSize_txBufInfoArr, writeBuf_of_ne _ (by omega),
        hlisted.first]
    · intro i hi
      rw [setNumFrags_txBufInfoArr, addSize_txBufInfoArr]
      by_cases hlast : i = entries
      · rw [hlast, ← hindex, writeBuf_self]
        nofun
      · rw [hother i (by omega)]
        exact hlisted.rest_object i (by omega)
    · have hbytes := bufBytes_of_skb binding (a := a)
        (b := setNumFrags (addSize (a.writeBuf (entries + 1 + 1)
          ⟨.zeroPad, skb.len, MIN_ETH_PACKET_LEN - skb.len⟩) (MIN_ETH_PACKET_LEN - skb.len))
            (entries + 1 + 1)) rfl
      rw [hbytes, setNumFrags_txBufInfoArr, addSize_txBufInfoArr, hindex, writeBuf,
        gather_update_succ, hlisted.rest, List.append_nil, bufBytes_zeroPad]
    · intro i hi
      simp only [setNumFrags_written, addSize_written, writeBuf_written, List.mem_append,
        List.mem_singleton] at hi
      rcases hi with hi | hi
      · have hlt := hlisted.written i hi
        omega
      · omega
  · rw [if_neg hshort, if_neg hshort]
    have hnone : MIN_ETH_PACKET_LEN - skb.len = 0 := by omega
    have hcount : skb.frags.length + 1 + 0 - 1 = skb.frags.length := by omega
    rw [hnone, hcount, List.replicate_zero]
    exact hlisted

/-- The first entry with the header in front of the linear part. -/
theorem Listed.frame_push (hlisted : Listed binding skb pad n a) {c : TxAssembly}
    (hskb : c.skb = skb.push binding.header)
    (harr : c.txBufInfoArr = Function.update a.txBufInfoArr 1
      ⟨.linear, (skb.push binding.header).data, skb.headlen + HEADER_SIZE⟩)
    (hpFrags : c.txPktInfo.pFrags = 1) (hnumFrags : c.txPktInfo.numFrags = n + 1) :
    c.frame binding = binding.header ++ skb.bytes ++ pad := by
  have hheadlen : skb.headlen + HEADER_SIZE = (skb.push binding.header).headlen := by
    unfold SkBuff.headlen SkBuff.push
    rw [List.length_append, binding.header_length, Nat.add_comm]
  have hrest : gather (c.bufBytes binding) a.txBufInfoArr (1 + 1) n =
      gather (a.bufBytes binding) a.txBufInfoArr 2 n := by
    apply gather_congr
    intro i hi
    apply bufBytes_of_ne_linear
    · rw [hskb, hlisted.skb_eq]
      rfl
    · exact hlisted.rest_object i hi
  unfold TxAssembly.frame
  rw [hpFrags, hnumFrags, harr, gather_update_left, hheadlen, bufBytes_linear _ hskb, hrest,
    hlisted.rest]
  unfold SkBuff.push SkBuff.bytes
  simp only [List.append_assoc]

/-- A header in the socket buffer. -/
theorem Listed.addHeader_push (hlisted : Listed binding skb pad n a)
    (hroom : HEADER_SIZE ≤ skb.headroom.length) :
    (a.addHeader binding).frame binding = binding.header ++ skb.bytes ++ pad ∧
      (a.addHeader binding).txPktInfo.pktSize =
        BitVec.ofNat 16 (skb.len + pad.length + (skb.headlen + HEADER_SIZE)) ∧
      (a.addHeader binding).txPktInfo.numFrags = n + 1 ∧
      (a.addHeader binding).skb = skb.push binding.header ∧
      ∀ i ∈ (a.addHeader binding).written, i < n + 2 := by
  unfold TxAssembly.addHeader
  rw [hlisted.skb_eq, if_pos hroom]
  dsimp only
  rw [hlisted.pFrags, hlisted.first]
  dsimp only
  generalize hb : ({ a with skb := skb.push binding.header } : TxAssembly) = b
  have hbSkb : b.skb = skb.push binding.header := by rw [← hb]
  have hbArr : b.txBufInfoArr = a.txBufInfoArr := by rw [← hb]
  have hbPkt : b.txPktInfo = a.txPktInfo := by rw [← hb]
  have hbWritten : b.written = a.written := by rw [← hb]
  have hdata : skb.data - HEADER_SIZE = (skb.push binding.header).data := by
    unfold SkBuff.data SkBuff.push
    rw [binding.header_length, List.length_take]
    omega
  rw [hdata]
  refine ⟨?_, ?_, ?_, hbSkb, ?_⟩
  · apply hlisted.frame_push
    · exact hbSkb
    · rw [addSize_txBufInfoArr, ← hbArr]
      rfl
    · rw [← hlisted.pFrags, ← hbPkt]
      rfl
    · rw [← hlisted.numFrags, ← hbPkt]
      rfl
  · rw [BitVec.ofNat_add, ← hlisted.pktSize, ← hbPkt]
    rfl
  · rw [← hlisted.numFrags, ← hbPkt]
    rfl
  · intro i hi
    rw [addSize_written, writeBuf_written, hbWritten, List.mem_append, List.mem_singleton] at hi
    rcases hi with hi | hi
    · exact hlisted.written i hi
    · omega

/-- A header as an entry of its own. -/
theorem Listed.addHeader_entry (hlisted : Listed binding skb pad n a)
    (hroom : ¬ HEADER_SIZE ≤ skb.headroom.length) :
    (a.addHeader binding).frame binding = binding.header ++ skb.bytes ++ pad ∧
      (a.addHeader binding).txPktInfo.pktSize =
        BitVec.ofNat 16 (skb.len + pad.length + HEADER_SIZE) ∧
      (a.addHeader binding).skb = skb ∧
      ∀ i ∈ (a.addHeader binding).written, i < n + 2 := by
  unfold TxAssembly.addHeader
  rw [hlisted.skb_eq, if_neg hroom]
  dsimp only
  rw [writeBuf_txPktInfo, hlisted.numFrags]
  refine ⟨?_, ?_, hlisted.skb_eq, ?_⟩
  · refine (frame_prepend ?_ rfl rfl hlisted.pFrags hlisted.numFrags rfl).trans ?_
    · rfl
    · rw [hlisted.frame, List.append_assoc]
  · rw [BitVec.ofNat_add, ← hlisted.pktSize]
    rfl
  · intro i hi
    simp only [setNumFrags_written, addSize_written, writeBuf_written, List.mem_append,
      List.mem_singleton] at hi
    rcases hi with hi | hi
    · exact hlisted.written i hi
    · omega

/-- A trailer in the socket buffer makes the packet longer by the linear part, too. -/
theorem Listed.addTrailer_put (hlisted : Listed binding skb pad 0 a)
    (hroom : TRAILER_SIZE ≤ skb.tailroom.length) :
    (a.addTrailer binding).txPktInfo.pktSize =
      BitVec.ofNat 16 (skb.len + pad.length + (skb.headlen + TRAILER_SIZE)) := by
  unfold TxAssembly.addTrailer
  rw [hlisted.skb_eq, if_pos ⟨hlisted.numFrags, hroom⟩]
  dsimp only
  rw [hlisted.numFrags, Nat.zero_add, hlisted.first, BitVec.ofNat_add, ← hlisted.pktSize]
  rfl

/-- A trailer as an entry of its own. -/
theorem Listed.addTrailer_entry (hlisted : Listed binding skb pad n a)
    (hroom : ¬ (n = 0 ∧ TRAILER_SIZE ≤ skb.tailroom.length)) :
    (a.addTrailer binding).frame binding = skb.bytes ++ pad ++ binding.trailer ∧
      (a.addTrailer binding).txPktInfo.pktSize =
        BitVec.ofNat 16 (skb.len + pad.length + TRAILER_SIZE) ∧
      (a.addTrailer binding).skb = skb ∧
      n + 2 ∈ (a.addTrailer binding).written ∧
      ∀ i ∈ (a.addTrailer binding).written, i < n + 3 := by
  have hentry : ¬ (n + 1 = 1 ∧ TRAILER_SIZE ≤ skb.tailroom.length) := by
    rintro ⟨hn, hle⟩
    exact hroom ⟨by omega, hle⟩
  unfold TxAssembly.addTrailer
  rw [hlisted.skb_eq, hlisted.numFrags, if_neg hentry]
  dsimp only
  rw [writeBuf_txPktInfo, hlisted.numFrags]
  refine ⟨?_, ?_, hlisted.skb_eq, ?_, ?_⟩
  · refine (frame_concat ?_ ?_ ?_ hlisted.pFrags hlisted.numFrags rfl).trans ?_
    · rfl
    · rw [Nat.add_comm 1 (n + 1)]
      rfl
    · exact hlisted.pFrags
    · rw [hlisted.frame]
  · rw [BitVec.ofNat_add, ← hlisted.pktSize]
    rfl
  · simp only [setNumFrags_written, addSize_written, writeBuf_written, List.mem_append,
      List.mem_singleton, or_true]
  · intro i hi
    simp only [setNumFrags_written, addSize_written, writeBuf_written, List.mem_append,
      List.mem_singleton] at hi
    rcases hi with hi | hi
    · have hlt := hlisted.written i hi
      omega
    · omega

end TxAssembly

variable {build : TxBuild} {resource : ℤ} {priv : EgigaPriv}

open TxAssembly

/-- The list at the start of a call. -/
theorem initPktInfo_priv (binding : Binding) (priv : EgigaPriv) (skb : SkBuff) :
    Listed binding skb [] skb.frags.length
      (initPktInfo { priv with skb := skb, written := [] }) :=
  initPktInfo_listed (a := { priv with skb := skb, written := [] }) rfl

/-- The list behind the pad. -/
theorem addZeroPad_priv (binding : Binding) (priv : EgigaPriv) (skb : SkBuff)
    (hlen : skb.len < 2 ^ 16) :
    Listed binding skb (txPad skb) (txEntries skb - 1)
      (initPktInfo { priv with skb := skb, written := [] }).addZeroPad :=
  (initPktInfo_priv binding priv skb).addZeroPad hlen

/-- The length of a padded packet. -/
theorem len_add_txPad (skb : SkBuff) :
    skb.len + (txPad skb).length = max skb.len MIN_ETH_PACKET_LEN := by
  unfold txPad
  rw [List.length_replicate]
  omega

/-- The bytes of a packet are as many as its length says. -/
theorem length_bytes (skb : SkBuff) : skb.bytes.length = skb.len := by
  unfold SkBuff.bytes SkBuff.len
  rw [List.length_append]

/-- The length of the frame that a packet is meant to be sent as. -/
theorem length_txFrame (binding : Binding) (skb : SkBuff) (build : TxBuild) :
    (txFrame binding skb build).length =
      match build with
      | .plain => skb.len
      | .headers => max skb.len MIN_ETH_PACKET_LEN + HEADER_SIZE
      | .trailers => max skb.len MIN_ETH_PACKET_LEN + TRAILER_SIZE := by
  have hlen := len_add_txPad skb
  cases build with
  | plain => exact length_bytes skb
  | headers =>
    unfold txFrame
    simp only [List.length_append, length_bytes, binding.header_length]
    omega
  | trailers =>
    unfold txFrame
    simp only [List.length_append, length_bytes, binding.trailer_length]
    omega

/-- The entries of a packet lie in the array with room for one more, or two. -/
theorem txEntries_le (skb : SkBuff) : txEntries skb ≤ MAX_SKB_FRAGS + 2 := by
  have hfrags := skb.frags_le
  unfold txEntries
  split <;> omega

theorem txEntries_pos (skb : SkBuff) : 0 < txEntries skb := by
  unfold txEntries
  omega

/-- A frame that is right has a size of 16 bits. -/
theorem TxRight.length_lt (hright : TxRight build binding resource priv skb) :
    (txFrame binding skb build).length < 2 ^ 16 := by
  rw [← hright.pktSize]
  exact BitVec.isLt _

/-- A call is right that makes the right frame of every packet and leaves the socket buffer. -/
theorem TxRight.of_frame
    (hframe : ∀ priv, (egigaTxAssemble build binding priv skb).frame binding =
      txFrame binding skb build)
    (hsize : (egigaTxAssemble build binding priv skb).txPktInfo.pktSize.toNat =
      (txFrame binding skb build).length)
    (hinside : ∀ i ∈ (egigaTxAssemble build binding priv skb).written, i < txBufInfoEntries)
    (hskb : (egigaTxAssemble build binding priv skb).skb = skb) :
    TxRight build binding resource priv skb := by
  refine ⟨hframe priv, hsize, hinside, fun _ => ⟨hskb, fun resource' => ?_⟩⟩
  unfold egigaTxSend
  dsimp only
  rw [hskb, hframe, hframe]

/-- The plain build is right for every frame with a size of 16 bits. -/
theorem plain_right (hlen : skb.len < 2 ^ 16) : TxRight .plain binding resource priv skb := by
  have hlisted := fun priv => initPktInfo_priv binding priv skb
  apply TxRight.of_frame
  · intro priv
    exact (hlisted priv).frame.trans (List.append_nil _)
  · rw [length_txFrame]
    refine (congrArg BitVec.toNat (hlisted priv).pktSize).trans ?_
    rw [BitVec.toNat_ofNat, List.length_nil, Nat.add_zero, Nat.mod_eq_of_lt hlen]
  · intro i hi
    have hlt := (hlisted priv).written i hi
    have hfrags := skb.frags_le
    unfold txBufInfoEntries
    omega
  · exact (hlisted priv).skb_eq

/-- A header as an entry of its own is right. -/
theorem headers_right_entry
    (hlen : max skb.len MIN_ETH_PACKET_LEN + HEADER_SIZE < 2 ^ 16)
    (hroom : ¬ HEADER_SIZE ≤ skb.headroom.length) :
    TxRight .headers binding resource priv skb := by
  have hentry := fun priv =>
    (addZeroPad_priv binding priv skb (by omega)).addHeader_entry hroom
  apply TxRight.of_frame
  · intro priv
    exact (hentry priv).1
  · obtain ⟨-, hsize, -, -⟩ := hentry priv
    rw [length_txFrame]
    refine (congrArg BitVec.toNat hsize).trans ?_
    rw [BitVec.toNat_ofNat, len_add_txPad, Nat.mod_eq_of_lt hlen]
  · intro i hi
    have hlt := (hentry priv).2.2.2 i hi
    have hle := txEntries_le skb
    unfold txBufInfoEntries
    omega
  · exact (hentry priv).2.2.1

/-- A header in the socket buffer is right only where its linear part is empty and the port takes
the packet. -/
theorem headers_right_push_iff
    (hlen : max skb.len MIN_ETH_PACKET_LEN + HEADER_SIZE < 2 ^ 16)
    (hroom : HEADER_SIZE ≤ skb.headroom.length) :
    TxRight .headers binding resource priv skb ↔
      skb.linear = [] ∧ (txEntries skb : ℤ) ≤ resource := by
  obtain ⟨hframe, hsize, hnum, hskb, hwritten⟩ :=
    (addZeroPad_priv binding priv skb (by omega)).addHeader_push hroom
  have hpos := txEntries_pos skb
  have hnumFrags : (egigaTxAssemble .headers binding priv skb).txPktInfo.numFrags =
      txEntries skb := hnum.trans (by omega)
  have hpktSize : (egigaTxAssemble .headers binding priv skb).txPktInfo.pktSize.toNat =
      (max skb.len MIN_ETH_PACKET_LEN + (skb.headlen + HEADER_SIZE)) % 2 ^ 16 := by
    refine (congrArg BitVec.toNat hsize).trans ?_
    rw [BitVec.toNat_ofNat, len_add_txPad]
  have hheadlen : skb.headlen ≤ skb.len := Nat.le_add_right _ _
  constructor
  · intro hright
    have htotal := hright.pktSize
    rw [length_txFrame] at htotal
    have hempty : skb.headlen = 0 := by
      have h := hpktSize.symm.trans htotal
      dsimp only at h
      omega
    refine ⟨List.length_eq_zero_iff.mp hempty, ?_⟩
    by_contra hresource
    have hfails : (egigaTxSend .headers binding resource priv skb).1 ≠ 0 := by
      unfold egigaTxSend portTakes
      dsimp only
      rw [hnumFrags, decide_eq_true (by omega)]
      decide
    have hsame := (hright.resubmit hfails).1
    have hroom' := congrArg (fun skb => skb.headroom.length) (hskb.symm.trans hsame)
    unfold SkBuff.push at hroom'
    dsimp only at hroom'
    rw [List.length_take, binding.header_length] at hroom'
    unfold HEADER_SIZE at hroom hroom'
    omega
  · rintro ⟨hempty, hresource⟩
    have htakes : (egigaTxSend .headers binding resource priv skb).1 = 0 := by
      unfold egigaTxSend portTakes
      dsimp only
      rw [hnumFrags, decide_eq_false (by omega)]
      rfl
    refine ⟨hframe, ?_, ?_, fun hfails => absurd htakes hfails⟩
    · rw [length_txFrame]
      refine hpktSize.trans ?_
      unfold SkBuff.headlen
      rw [hempty, List.length_nil, Nat.zero_add, Nat.mod_eq_of_lt hlen]
    · intro i hi
      have hlt := hwritten i hi
      have hle := txEntries_le skb
      unfold txBufInfoEntries
      omega

/-- A trailer in the socket buffer is never right. -/
theorem not_trailers_right_put (hlen : skb.len < 2 ^ 16) (hentries : txEntries skb = 1)
    (hroom : TRAILER_SIZE ≤ skb.tailroom.length) :
    ¬ TxRight .trailers binding resource priv skb := by
  intro hright
  have hlisted := addZeroPad_priv binding priv skb hlen
  rw [hentries, Nat.sub_self] at hlisted
  have hsize := congrArg BitVec.toNat (hlisted.addTrailer_put hroom)
  have htotal := hright.pktSize
  have hlt := hright.length_lt
  rw [length_txFrame] at htotal hlt
  have hsum := hsize.symm.trans htotal
  rw [BitVec.toNat_ofNat, len_add_txPad] at hsum
  -- the packet has no fragments, and is not short
  have hlong : MIN_ETH_PACKET_LEN ≤ skb.len ∧ skb.frags.length = 0 := by
    unfold txEntries at hentries
    by_cases hshort : skb.len < MIN_ETH_PACKET_LEN
    · rw [if_pos hshort] at hentries
      omega
    · rw [if_neg hshort] at hentries
      omega
  have hheadlen : skb.headlen = skb.len := by
    unfold SkBuff.len SkBuff.headlen
    rw [List.length_eq_zero_iff.mp hlong.2]
    rfl
  rw [hheadlen] at hsum
  unfold MIN_ETH_PACKET_LEN at hsum hlong hlt
  dsimp only at hsum hlt
  omega

/-- A trailer as an entry of its own is right unless that entry lies behind the array. -/
theorem trailers_right_entry_iff
    (hlen : max skb.len MIN_ETH_PACKET_LEN + TRAILER_SIZE < 2 ^ 16)
    (hroom : ¬ (txEntries skb = 1 ∧ TRAILER_SIZE ≤ skb.tailroom.length)) :
    TxRight .trailers binding resource priv skb ↔
      ¬ (skb.frags.length = MAX_SKB_FRAGS ∧ skb.len < MIN_ETH_PACKET_LEN) := by
  have hpos := txEntries_pos skb
  have hentry := fun priv =>
    (addZeroPad_priv binding priv skb (by omega)).addTrailer_entry (by
      rintro ⟨hn, hle⟩
      exact hroom ⟨by omega, hle⟩)
  have hfrags := skb.frags_le
  constructor
  · rintro hright ⟨hmax, hshort⟩
    have hinside := hright.inside _ (hentry priv).2.2.2.1
    unfold txEntries txBufInfoEntries at hinside
    rw [if_pos hshort] at hinside
    omega
  · intro hfits
    apply TxRight.of_frame
    · intro priv
      exact (hentry priv).1
    · rw [length_txFrame]
      refine (congrArg BitVec.toNat (hentry priv).2.1).trans ?_
      rw [BitVec.toNat_ofNat, len_add_txPad, Nat.mod_eq_of_lt hlen]
    · intro i hi
      have hlt := (hentry priv).2.2.2.2 i hi
      unfold txBufInfoEntries
      unfold txEntries at hlt
      by_cases hshort : skb.len < MIN_ETH_PACKET_LEN
      · rw [if_pos hshort] at hlt
        omega
      · rw [if_neg hshort] at hlt
        omega
    · exact (hentry priv).2.2.1

/-- Exactly when a packet is sent as it is meant to be, in each build, from any state of the
interface. -/
theorem egigaTxSend_right_iff (build : TxBuild) (binding : Binding) (resource : ℤ)
    (priv : EgigaPriv) (skb : SkBuff) :
    TxRight build binding resource priv skb ↔ TxSound resource skb build := by
  cases build with
  | plain =>
    constructor
    · intro hright
      have hlt := hright.length_lt
      rwa [length_txFrame] at hlt
    · exact plain_right
  | headers =>
    unfold TxSound
    constructor
    · intro hright
      have hlen := hright.length_lt
      rw [length_txFrame] at hlen
      refine ⟨hlen, ?_⟩
      by_cases hroom : HEADER_SIZE ≤ skb.headroom.length
      · exact Or.inr ((headers_right_push_iff hlen hroom).mp hright)
      · exact Or.inl (Nat.lt_of_not_le hroom)
    · rintro ⟨hlen, hcase⟩
      by_cases hroom : HEADER_SIZE ≤ skb.headroom.length
      · apply (headers_right_push_iff hlen hroom).mpr
        exact hcase.resolve_left (Nat.not_lt_of_le hroom)
      · exact headers_right_entry hlen hroom
  | trailers =>
    unfold TxSound
    constructor
    · intro hright
      have hlen := hright.length_lt
      rw [length_txFrame] at hlen
      dsimp only at hlen
      have hroom : ¬ (txEntries skb = 1 ∧ TRAILER_SIZE ≤ skb.tailroom.length) := by
        rintro ⟨hentries, hroom⟩
        exact not_trailers_right_put (by omega) hentries hroom hright
      exact ⟨hlen, hroom, (trailers_right_entry_iff hlen hroom).mp hright⟩
    · rintro ⟨hlen, hroom, hfits⟩
      exact (trailers_right_entry_iff hlen hroom).mpr hfits

/-- The bytes that a switch is given for a port. -/
def switchBinding : Binding := ⟨[0, 1], [0x80, 1, 0, 0], rfl, rfl⟩

/-- A packet of 60 bytes in a linear area, with the given room before and behind it. -/
def linearPacket (headroom tailroom : ℕ) : SkBuff :=
  ⟨List.replicate headroom 0, List.replicate 60 1, List.replicate tailroom 0, [], Nat.zero_le _⟩

/-- The variables of an interface that has sent nothing yet. -/
def newPriv : EgigaPriv := ⟨fun _ => ⟨.linear, 0, 0⟩, ⟨0, 0, 0⟩⟩

/-- With room for the header, the size of a packet of 60 bytes is 122 instead of 62. -/
theorem linearPacket_pushed_not_right :
    (egigaTxSend .headers switchBinding 9 newPriv (linearPacket 16 0)).2.txPktInfo.pktSize = 122 ∧
      (txFrame switchBinding (linearPacket 16 0) .headers).length = 62 ∧
      ¬ TxRight .headers switchBinding 9 newPriv (linearPacket 16 0) := by
  have hsize :
      (egigaTxSend .headers switchBinding 9 newPriv (linearPacket 16 0)).2.txPktInfo.pktSize =
        122 := by decide
  have hlength : (txFrame switchBinding (linearPacket 16 0) .headers).length = 62 := by decide
  refine ⟨hsize, hlength, fun hright => ?_⟩
  have htotal := hright.pktSize
  rw [hsize, hlength] at htotal
  revert htotal
  decide

end Mv88fxx81.Eth
