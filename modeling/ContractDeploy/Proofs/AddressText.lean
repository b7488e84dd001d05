import ContractDeploy.Address
import Mathlib.Data.Nat.Digits.Defs

namespace ContractDeploy

namespace Address

variable {a : Address} {c : Char} {n b k : Nat} {s : String} {ds : List Char}

-- The `w` lowest digits of `v` in base `b`, the most significant first.
def fixedDigits (b : Nat) : Nat → Nat → List Nat
  | 0, _ => []
  | w + 1, v => fixedDigits b w (v / b) ++ [v % b]

@[simp] theorem length_fixedDigits {w v : Nat} : (fixedDigits b w v).length = w := by
  induction w generalizing v with
  | zero => rfl
  | succ w ih => simp [fixedDigits, ih]

theorem fixedDigits_lt {w v d : Nat} (hb : 0 < b) (h : d ∈ fixedDigits b w v) : d < b := by
  induction w generalizing v with
  | zero => simp [fixedDigits] at h
  | succ w ih =>
    rcases List.mem_append.mp h with h | h
    · exact ih h
    · rw [List.mem_singleton.mp h]
      exact Nat.mod_lt _ hb

theorem fixedDigits_ofDigits {ls : List Nat} (hls : ∀ d ∈ ls, d < b) :
    fixedDigits b ls.length (Nat.ofDigits b ls) = ls.reverse := by
  induction ls with
  | nil => rfl
  | cons d ls ih =>
    have hd : d < b := hls d List.mem_cons_self
    have hq : (d + b * Nat.ofDigits b ls) / b = Nat.ofDigits b ls := by
      rw [Nat.add_mul_div_left _ _ (by omega), Nat.div_eq_of_lt hd, Nat.zero_add]
    rw [List.length_cons, Nat.ofDigits_cons, fixedDigits, hq,
      ih fun x hx => hls x (List.mem_cons_of_mem d hx), Nat.add_mul_mod_self_left,
      Nat.mod_eq_of_lt hd, List.reverse_cons]

theorem ofDigits_fixedDigits (b w v : Nat) :
    Nat.ofDigits b (fixedDigits b w v).reverse = v % b ^ w := by
  induction w generalizing v with
  | zero => simp [fixedDigits, Nat.mod_one]
  | succ w ih =>
    simp only [fixedDigits, List.reverse_append, List.reverse_singleton, List.singleton_append,
      Nat.ofDigits_cons, ih, Nat.pow_succ', Nat.mod_mul]

theorem bytes_eq (a : Address) : a.bytes = fixedDigits 256 8 a.word.toNat := by
  simp [bytes, size, fixedDigits, List.range_succ, Nat.div_div_eq_div_mul]

theorem word_mod_pow (a : Address) {b w : Nat} (h : b ^ w = 2 ^ 64) :
    a.word.toNat % b ^ w = a.word.toNat := by
  rw [h]
  exact Nat.mod_eq_of_lt a.word.toNat_lt

theorem ofDigits_bytes (a : Address) : Nat.ofDigits 256 a.bytes.reverse = a.word.toNat := by
  rw [bytes_eq, ofDigits_fixedDigits, word_mod_pow a (by norm_num)]

theorem flatMap_fixedDigits (w v : Nat) :
    (fixedDigits 256 w v).flatMap (fun b => [b / 16, b % 16]) = fixedDigits 16 (2 * w) v := by
  induction w generalizing v with
  | zero => rfl
  | succ w ih =>
    rw [fixedDigits, List.flatMap_append, ih, show 2 * (w + 1) = 2 * w + 1 + 1 by omega,
      fixedDigits, fixedDigits, Nat.div_div_eq_div_mul]
    simp only [List.flatMap_cons, List.flatMap_nil, List.append_nil, List.append_assoc,
      List.singleton_append]
    have h₁ : v % 256 / 16 = v / 16 % 16 := by omega
    have h₂ : v % 256 % 16 = v % 16 := by omega
    rw [h₁, h₂]

-- Writing bytes as hexadecimal text: two lowercase digits for each byte, the high half first.
def EncodesHex (encode : List Nat → List Char) : Prop :=
  ∀ bs, encode bs = bs.flatMap fun b => [Text.hexDigit (b / 16), Text.hexDigit (b % 16)]

-- Reading an even number of bytes as hexadecimal text: when every byte is a digit, one byte for
-- each pair, its high half the first digit's value and its low half the second's; otherwise a
-- fault at the first byte that is no digit, at its index.
structure DecodesPairs (decode : List Nat → Except AddressFault (List Nat)) : Prop where
  ok : ∀ bs, bs.length % 2 = 0 → (∀ b ∈ bs, (digitValue b).isSome) → ∃ out, decode bs = .ok out ∧
    out.flatMap (fun b => [b / 16, b % 16]) = bs.map fun b => (digitValue b).getD 0
  error : ∀ bs k b, bs.length % 2 = 0 → bs[k]? = some b → digitValue b = none →
    (∀ j < k, ∀ b', bs[j]? = some b' → (digitValue b').isSome) →
    decode bs = .error (.badDigit (Char.ofNat b) k)

theorem encodesHex_hexByte : EncodesHex (·.flatMap hexByte) := fun _ => rfl

variable {encode : List Nat → List Char} {decode : List Nat → Except AddressFault (List Nat)}

theorem hexWith_toList (henc : EncodesHex encode) (a : Address) :
    (a.hexWith encode).toList = (fixedDigits 16 16 a.word.toNat).map Text.hexDigit := by
  rw [hexWith, String.toList_ofList, henc, bytes_eq, show 16 = 2 * 8 from rfl,
    ← flatMap_fixedDigits]
  simp only [List.map_flatMap, List.map_cons, List.map_nil]

-- The value of a hexadecimal digit.
def hexValue (c : Char) : Nat := (digitValue c.toNat).getD 0

theorem digitValue_lt {d : Nat} (h : digitValue b = some d) : b < 0x80 ∧ d < 16 := by
  unfold digitValue at h
  split_ifs at h <;> simp_all <;> omega

theorem digitValue_eq_none (h : 0x80 ≤ b) : digitValue b = none := by
  cases hd : digitValue b with
  | none => rfl
  | some d => exact absurd (digitValue_lt hd).1 (by omega)

theorem isHexDigit_eq (c : Char) : c.isHexDigit = (digitValue c.toNat).isSome := by
  have h0 : '0'.val.toNat = 48 := rfl
  have h9 : '9'.val.toNat = 57 := rfl
  have ha : 'a'.val.toNat = 97 := rfl
  have hf : 'f'.val.toNat = 102 := rfl
  have hA : 'A'.val.toNat = 65 := rfl
  have hF : 'F'.val.toNat = 70 := rfl
  simp only [Char.isHexDigit, Char.isDigit, digitValue, Char.toNat, UInt32.le_iff_toNat_le,
    h0, h9, ha, hf, hA, hF]
  split_ifs <;> simp_all

-- A byte taken as the character of its code is a hexadecimal digit exactly when it reads as one;
-- a number that is no code point stands for `\0`, and is no digit either.
theorem isHexDigit_ofNat (b : Nat) : (Char.ofNat b).isHexDigit = (digitValue b).isSome := by
  rw [isHexDigit_eq, Char.ofNat]
  by_cases h : b.isValidChar
  case pos => rw [dif_pos h]; rfl
  case neg =>
    have hb : 0xD800 ≤ b := by
      by_contra hlt
      exact h (Or.inl (by omega))
    rw [dif_neg h, digitValue_eq_none (show 0x80 ≤ b by omega)]
    decide

theorem lt_of_isHexDigit (h : c.isHexDigit) : c.toNat < 0x80 := by
  rw [isHexDigit_eq, Option.isSome_iff_exists] at h
  obtain ⟨d, hd⟩ := h
  exact (digitValue_lt hd).1

theorem hexValue_lt (h : ∀ c ∈ ds, c.isHexDigit) : ∀ d ∈ ds.map hexValue, d < 16 := by
  intro d hd
  obtain ⟨c, hc, rfl⟩ := List.mem_map.mp hd
  have hs := h c hc
  rw [isHexDigit_eq, Option.isSome_iff_exists] at hs
  obtain ⟨v, hv⟩ := hs
  simp [hexValue, hv, (digitValue_lt hv).2]

theorem hexDigit_hexValue (h : c.isHexDigit) : Text.hexDigit (hexValue c) = c.toLower := by
  have hall : ∀ n < 0x80, (Char.ofNat n).isHexDigit →
      Text.hexDigit (hexValue (Char.ofNat n)) = (Char.ofNat n).toLower := by decide
  rw [← Char.ofNat_toNat c] at h ⊢
  exact hall _ (lt_of_isHexDigit (by simpa using h)) h

theorem hexValue_hexDigit (h : n < 16) : hexValue (Text.hexDigit n) = n := by
  have hall : ∀ n < 16, hexValue (Text.hexDigit n) = n := by decide
  exact hall n h

theorem isHexDigit_hexDigit (h : n < 16) : (Text.hexDigit n).isHexDigit := by
  have hall : ∀ n < 16, (Text.hexDigit n).isHexDigit := by decide
  exact hall n h

theorem encodeChar_of_isHexDigit (h : c.isHexDigit) : Utf8.encodeChar c = [c.toNat] := by
  simp [Utf8.encodeChar, lt_of_isHexDigit h]

theorem encodeChar_ne_nil (c : Char) : Utf8.encodeChar c ≠ [] := by
  simp only [Utf8.encodeChar]
  split_ifs <;> simp

-- A character that is no hexadecimal digit has a byte that is none: its code, or the lead byte
-- of a longer sequence, which is at least `0xC0`.
theorem exists_bad_byte (h : c.isHexDigit = false) :
    ∃ b ∈ Utf8.encodeChar c, digitValue b = none := by
  by_cases hc : c.toNat < 0x80
  case pos =>
    refine ⟨c.toNat, by simp [Utf8.encodeChar, hc], ?_⟩
    simpa [isHexDigit_eq] using h
  case neg =>
    simp only [Utf8.encodeChar, hc, if_false]
    split_ifs <;> exact ⟨_, List.mem_cons_self, digitValue_eq_none (by omega)⟩

theorem encode_eq_nil : Utf8.encode (String.ofList ds) = [] ↔ ds = [] := by
  simp only [Utf8.encode, String.toList_ofList, List.flatMap_eq_nil_iff]
  constructor
  · intro h
    cases ds with
    | nil => rfl
    | cons c cs => exact absurd (h c List.mem_cons_self) (encodeChar_ne_nil c)
  · rintro rfl
    simp

theorem encode_of_hexDigits (h : ∀ c ∈ ds, c.isHexDigit) :
    Utf8.encode (String.ofList ds) = ds.map Char.toNat := by
  simp only [Utf8.encode, String.toList_ofList]
  induction ds with
  | nil => rfl
  | cons c cs ih =>
    rw [List.flatMap_cons, encodeChar_of_isHexDigit (h c List.mem_cons_self),
      ih fun x hx => h x (List.mem_cons_of_mem c hx)]
    rfl

theorem digitsOf_of_hexDigits (h : ∀ c ∈ s.toList, c.isHexDigit) : digitsOf s = s.toList := by
  unfold digitsOf
  split
  case h_1 rest hs => exact absurd (h 'x' (by simp [hs])) (by decide)
  case h_2 rest hs => exact absurd (h 'X' (by simp [hs])) (by decide)
  case h_3 => rfl

theorem digitsOf_prefixed (a : Address) :
    digitsOf ("0x" ++ a.hexWith encode) = (a.hexWith encode).toList := by
  simp [digitsOf]

theorem foldl_eq_ofDigits (b : Nat) (l : List Nat) (m : Nat) :
    l.foldl (fun n d => n * b + d) m = m * b ^ l.length + Nat.ofDigits b l.reverse := by
  induction l generalizing m with
  | nil => simp
  | cons d l ih =>
    rw [List.foldl_cons, ih, List.length_cons, Nat.ofDigits_reverse_cons]
    ring

-- An even number of hexadecimal digits reads as one byte for each pair, the pair's digits its
-- halves.
theorem pairs_eq_ok {bs : List Nat} (h : ∀ b ∈ bs, (digitValue b).isSome)
    (he : bs.length % 2 = 0) (i : Nat) : ∃ out, pairs i bs = .ok out ∧
      out.flatMap (fun b => [b / 16, b % 16]) = bs.map fun b => (digitValue b).getD 0 := by
  fun_induction pairs i bs with
  | case1 => exact ⟨[], rfl, rfl⟩
  | case2 => simp at he
  | case3 => simp at he
  | case4 i hi lo rest hh => simp [hh] at h
  | case5 i hi lo rest h' hl => simp [hl] at h
  | case6 i hi lo rest h' l' hh hl ih =>
    obtain ⟨out, hout, hhalves⟩ :=
      ih (fun b hb => h b (by simp [hb])) (by simp at he ⊢; omega)
    have hlt := (digitValue_lt hh).2
    have hlt' := (digitValue_lt hl).2
    refine ⟨(h' * 16 + l') :: out, by simp [hout], ?_⟩
    rw [List.flatMap_cons, hhalves, List.map_cons, List.map_cons, hh, hl]
    simp only [Option.getD_some, List.cons_append, List.nil_append, List.cons.injEq, and_true]
    omega

-- The first byte that is no hexadecimal digit is the fault, at its index from `i`, whether it
-- stands first or second in its pair.
theorem pairs_eq_error {bs : List Nat} (hk : bs[k]? = some b) (hb : digitValue b = none)
    (hpre : ∀ j < k, ∀ b', bs[j]? = some b' → (digitValue b').isSome) (i : Nat) :
    pairs i bs = .error (.badDigit (Char.ofNat b) (i + k)) := by
  fun_induction pairs i bs generalizing k with
  | case1 => simp at hk
  | case2 i x d hx =>
    cases k with
    | zero => simp_all
    | succ k => simp at hk
  | case3 i x hx =>
    cases k with
    | zero => simp_all
    | succ k => simp at hk
  | case4 i hi lo rest hh =>
    cases k with
    | zero => simp_all
    | succ k => simpa [hh] using hpre 0 (by omega) hi rfl
  | case5 i hi lo rest h' hl =>
    match k with
    | 0 => simp_all
    | 1 => simp_all
    | k + 2 => simpa [hl] using hpre 1 (by omega) lo rfl
  | case6 i hi lo rest h' l' hh hl ih =>
    match k with
    | 0 => simp_all
    | 1 => simp_all
    | k + 2 =>
      have := ih (k := k) (by simpa using hk)
        (fun j hj b' hb' => hpre (j + 2) (by omega) b' (by simpa using hb'))
      simp [this, Nat.add_assoc, Nat.add_comm 2 k]

theorem decodesPairs_pairs : DecodesPairs (pairs 0) :=
  ⟨fun _ he h => pairs_eq_ok h he 0,
    fun _ k b _ hk hb hpre => by simpa using pairs_eq_error hk hb hpre 0⟩

theorem foldl_halves (out : List Nat) (m : Nat) :
    (out.flatMap fun b => [b / 16, b % 16]).foldl (fun n d => n * 16 + d) m =
      out.foldl (fun n b => n * 256 + b) m := by
  induction out generalizing m with
  | nil => rfl
  | cons b out ih =>
    rw [List.flatMap_cons, List.foldl_append, ih]
    simp only [List.foldl_cons, List.foldl_nil]
    congr 1
    omega

theorem length_halves (out : List Nat) :
    (out.flatMap fun b => [b / 16, b % 16]).length = 2 * out.length := by
  induction out with
  | nil => rfl
  | cons b out ih => simp only [List.flatMap_cons, List.length_append, ih]; simp; omega

theorem exists_first_bad {bs : List Nat} (h : ∃ b ∈ bs, digitValue b = none) :
    ∃ k b : Nat, bs[k]? = some b ∧ digitValue b = none ∧
      ∀ j < k, ∀ b', bs[j]? = some b' → (digitValue b').isSome := by
  induction bs with
  | nil => simp at h
  | cons x xs ih =>
    cases hx : digitValue x with
    | none => exact ⟨0, x, rfl, hx, fun j hj => absurd hj (Nat.not_lt_zero j)⟩
    | some v =>
      have ⟨b, hb, hbad⟩ := h
      have hxs : ∃ b ∈ xs, digitValue b = none := by
        rcases List.mem_cons.mp hb with rfl | hb
        · simp [hx] at hbad
        · exact ⟨b, hb, hbad⟩
      obtain ⟨k, b, hk, hbad, hpre⟩ := ih hxs
      refine ⟨k + 1, b, by simpa using hk, hbad, fun j hj b' hb' => ?_⟩
      cases j with
      | zero => simp_all
      | succ j => exact hpre j (by omega) b' (by simpa using hb')

-- The bytes read in pairs: the UTF-8 bytes of the digits, behind a `0` when there is an odd number
-- of them.
def paddedBytes (ds : List Char) : List Nat :=
  if (Utf8.encode (String.ofList ds)).length % 2 = 1 then 0x30 :: Utf8.encode (String.ofList ds)
  else Utf8.encode (String.ofList ds)

theorem paddedBytes_eq (ds : List Char) :
    paddedBytes ds = List.replicate ((Utf8.encode (String.ofList ds)).length % 2) 0x30 ++
      Utf8.encode (String.ofList ds) := by
  unfold paddedBytes
  split
  case isTrue h => rw [h]; rfl
  case isFalse h => rw [show (Utf8.encode (String.ofList ds)).length % 2 = 0 by omega]; rfl

theorem length_paddedBytes (ds : List Char) : (paddedBytes ds).length % 2 = 0 := by
  rw [paddedBytes_eq, List.length_append, List.length_replicate]
  omega

theorem ofHexWith_eq (s : String) : ofHexWith decode s =
    if digitsOf s = [] then .error .empty
    else (decode (paddedBytes (digitsOf s))).bind fun bs =>
      if 8 < bs.length then .error .tooLong
      else .ok ⟨UInt64.ofNat (bs.foldl (fun n b => n * 256 + b) 0)⟩ := by
  simp only [ofHexWith, List.isEmpty_iff, encode_eq_nil, paddedBytes, size]
  split
  case isTrue => rfl
  case isFalse =>
    cases decode _ with
    | error e => rfl
    | ok bs =>
      by_cases h : 8 < bs.length
      · simp [bind, Except.bind, h]
        rfl
      · simp [bind, Except.bind, h]
        rfl

theorem ofHexWith_of_nil (h : digitsOf s = []) : ofHexWith decode s = .error .empty := by
  rw [ofHexWith_eq, if_pos h]

theorem ofHexWith_of_bad (hdec : DecodesPairs decode) (hne : digitsOf s ≠ [])
    (hk : (paddedBytes (digitsOf s))[k]? = some b) (hb : digitValue b = none)
    (hpre : ∀ j < k, ∀ b', (paddedBytes (digitsOf s))[j]? = some b' → (digitValue b').isSome) :
    ofHexWith decode s = .error (.badDigit (Char.ofNat b) k) := by
  rw [ofHexWith_eq, if_neg hne, hdec.error _ k b (length_paddedBytes _) hk hb hpre]
  rfl

theorem ofHexWith_of_hexDigits (hdec : DecodesPairs decode) (hne : digitsOf s ≠ [])
    (hh : ∀ c ∈ digitsOf s, c.isHexDigit) :
    ofHexWith decode s = if 16 < (digitsOf s).length then .error .tooLong
      else .ok ⟨UInt64.ofNat (Nat.ofDigits 16 ((digitsOf s).map hexValue).reverse)⟩ := by
  have henc := encode_of_hexDigits hh
  -- the padding digit is a `0`, which adds nothing to the value
  have hvals : ((paddedBytes (digitsOf s)).map fun b => (digitValue b).getD 0).foldl
      (fun n d => n * 16 + d) 0 = Nat.ofDigits 16 ((digitsOf s).map hexValue).reverse := by
    have hmap : ((digitsOf s).map Char.toNat).map (fun b => (digitValue b).getD 0) =
        (digitsOf s).map hexValue := by
      simp [hexValue]
    have hzero : (digitValue 0x30).getD 0 = 0 := rfl
    rw [paddedBytes_eq, henc, List.map_append, List.map_replicate, hzero, hmap, List.foldl_append,
      foldl_eq_ofDigits, foldl_eq_ofDigits]
    simp
  have hhex : ∀ b ∈ paddedBytes (digitsOf s), (digitValue b).isSome := by
    intro b hb
    have hmem : ∀ b ∈ (digitsOf s).map Char.toNat, (digitValue b).isSome := by
      intro b hb
      obtain ⟨c, hc, rfl⟩ := List.mem_map.mp hb
      rw [← isHexDigit_eq]
      exact hh c hc
    rw [paddedBytes_eq, henc] at hb
    rcases List.mem_append.mp hb with hb | hb
    · rw [List.eq_of_mem_replicate hb]
      rfl
    · exact hmem b hb
  -- a `0` in front makes the number of bytes even
  have hlen : (paddedBytes (digitsOf s)).length =
      (digitsOf s).length + (digitsOf s).length % 2 := by
    rw [paddedBytes_eq, List.length_append, List.length_replicate, henc, List.length_map]
    omega
  obtain ⟨out, hout, hhalves⟩ := hdec.ok _ (length_paddedBytes _) hhex
  have hout_len : 2 * out.length = (paddedBytes (digitsOf s)).length := by
    rw [← length_halves, hhalves, List.length_map]
  have hval : out.foldl (fun n b => n * 256 + b) 0 =
      ((paddedBytes (digitsOf s)).map fun b => (digitValue b).getD 0).foldl
        (fun n d => n * 16 + d) 0 := by
    rw [← foldl_halves, hhalves]
  have hlong : (8 < out.length) = (16 < (digitsOf s).length) := by
    apply propext
    omega
  rw [ofHexWith_eq, if_neg hne, hout]
  simp only [Except.bind, hval, hvals, hlong]

-- A text reads as an address exactly when past the prefix it is one to sixteen hexadecimal
-- digits, and the address's bytes then hold their value.
theorem ofHexWith_eq_ok_iff (hdec : DecodesPairs decode) (s : String) (a : Address) :
    ofHexWith decode s = .ok a ↔
      (digitsOf s ≠ [] ∧ (digitsOf s).length ≤ 16 ∧ ∀ c ∈ digitsOf s, c.isHexDigit) ∧
        Nat.ofDigits 256 a.bytes.reverse = Nat.ofDigits 16 ((digitsOf s).map hexValue).reverse := by
  have hbound : ∀ {ds : List Char}, (∀ c ∈ ds, c.isHexDigit) → ds.length ≤ 16 →
      Nat.ofDigits 16 (ds.map hexValue).reverse < 2 ^ 64 := by
    intro ds h hlen
    calc Nat.ofDigits 16 (ds.map hexValue).reverse
      _ < 16 ^ (ds.map hexValue).reverse.length := Nat.ofDigits_lt_base_pow_length (by decide)
        fun d hd => hexValue_lt h d (List.mem_reverse.mp hd)
      _ ≤ 16 ^ 16 := Nat.pow_le_pow_right (by decide) (by simpa using hlen)
      _ = 2 ^ 64 := by norm_num
  rw [ofDigits_bytes]
  constructor
  · intro h
    have hne : digitsOf s ≠ [] := fun h0 => by simp [ofHexWith_of_nil h0] at h
    -- a character that is no digit has a byte that is none, and the first such byte fails
    have hhex : ∀ c ∈ digitsOf s, c.isHexDigit := by
      by_contra hbad
      obtain ⟨c, hc, hc'⟩ : ∃ c ∈ digitsOf s, c.isHexDigit = false := by simpa using hbad
      obtain ⟨b, hb, hbv⟩ := exists_bad_byte hc'
      have hmem : b ∈ paddedBytes (digitsOf s) := by
        have henc : b ∈ Utf8.encode (String.ofList (digitsOf s)) := by
          simp only [Utf8.encode, String.toList_ofList]
          exact List.mem_flatMap.mpr ⟨c, hc, hb⟩
        rw [paddedBytes_eq]
        exact List.mem_append_right _ henc
      obtain ⟨k, b, hk, hb, hpre⟩ := exists_first_bad ⟨b, hmem, hbv⟩
      simp [ofHexWith_of_bad hdec hne hk hb hpre] at h
    rw [ofHexWith_of_hexDigits hdec hne hhex] at h
    split at h
    case isTrue => cases h
    case isFalse hlen =>
      cases h
      have hlen' : (digitsOf s).length ≤ 16 := by omega
      exact ⟨⟨hne, hlen', hhex⟩, UInt64.toNat_ofNat_of_lt' (hbound hhex hlen')⟩
  · rintro ⟨⟨hne, hlen, hhex⟩, hval⟩
    rw [ofHexWith_of_hexDigits hdec hne hhex, if_neg (by omega)]
    congr
    rw [← UInt64.toNat_inj, UInt64.toNat_ofNat_of_lt' (hbound hhex hlen), hval]

theorem hexWith_of_ofHexWith (hdec : DecodesPairs decode) (henc : EncodesHex encode)
    (h : ofHexWith decode s = .ok a) :
    "0x" ++ a.hexWith encode =
      "0x" ++ String.ofList (((digitsOf s).map Char.toLower).leftpad 16 '0') := by
  obtain ⟨⟨-, hlen, hhex⟩, hval⟩ := (ofHexWith_eq_ok_iff hdec s a).mp h
  rw [ofDigits_bytes] at hval
  -- the sixteen digit values: zeros, then those of the text
  let vs := List.replicate (16 - (digitsOf s).length) 0 ++ (digitsOf s).map hexValue
  have hvs : Nat.ofDigits 16 vs.reverse = a.word.toNat := by
    simp [vs, hval]
  have hdigits : fixedDigits 16 16 a.word.toNat = vs := by
    have hlt : ∀ d ∈ vs.reverse, d < 16 := by
      intro d hd
      rcases List.mem_append.mp (List.mem_reverse.mp hd) with hd | hd
      · rw [List.eq_of_mem_replicate hd]
        decide
      · exact hexValue_lt hhex d hd
    have := fixedDigits_ofDigits hlt
    rwa [List.length_reverse, show vs.length = 16 by simp [vs]; omega, hvs,
      List.reverse_reverse] at this
  have hlower : (digitsOf s).map (Text.hexDigit ∘ hexValue) = (digitsOf s).map Char.toLower :=
    List.map_congr_left fun c hc => hexDigit_hexValue (hhex c hc)
  rw [String.append_right_inj, ← String.ofList_toList (s := a.hexWith encode), hexWith_toList henc,
    hdigits]
  simp [vs, List.leftpad, hlower, show Text.hexDigit 0 = '0' from rfl]

theorem isHexDigit_of_mem_hexWith (henc : EncodesHex encode)
    (hc : c ∈ (a.hexWith encode).toList) : c.isHexDigit := by
  rw [hexWith_toList henc] at hc
  obtain ⟨d, hd, rfl⟩ := List.mem_map.mp hc
  exact isHexDigit_hexDigit (fixedDigits_lt (by decide) hd)

theorem ofHexWith_of_digitsOf_hexWith (hdec : DecodesPairs decode) (henc : EncodesHex encode)
    (h : digitsOf s = (a.hexWith encode).toList) : ofHexWith decode s = .ok a := by
  have hval : Nat.ofDigits 16 ((a.hexWith encode).toList.map hexValue).reverse = a.word.toNat := by
    have hmap : (a.hexWith encode).toList.map hexValue = fixedDigits 16 16 a.word.toNat := by
      rw [hexWith_toList henc, List.map_map]
      exact (List.map_congr_left fun d hd =>
        hexValue_hexDigit (fixedDigits_lt (by decide) hd)).trans (List.map_id _)
    rw [hmap, ofDigits_fixedDigits, word_mod_pow a (by norm_num)]
  refine (ofHexWith_eq_ok_iff hdec s a).mpr
    ⟨⟨?_, ?_, h ▸ fun _ => isHexDigit_of_mem_hexWith henc⟩, by rw [ofDigits_bytes, h, hval]⟩
  · rw [h, hexWith_toList henc, Ne, List.map_eq_nil_iff, ← List.length_eq_zero_iff,
      length_fixedDigits]
    decide
  · rw [h, hexWith_toList henc]
    simp

-- Reading the text of an address, with any decoder and encoder that do what the hex codec does:
-- a text is accepted exactly when, past one leading `0x` (or else one leading `0X`), it is one to
-- sixteen hexadecimal digits, and the eight bytes, read most significant first, then hold their
-- value; the address is written back as `0x` and those digits in lower case behind zeros; every
-- address reads back from its digits and from its literal; and a text is rejected for having no
-- digits, else at the first byte that is no hexadecimal digit, counted in the bytes with a `0` in
-- front when there is an odd number of them, and only when there is none for having more than
-- sixteen digits.
theorem reads_hex_text_with (hdec : DecodesPairs decode) (henc : EncodesHex encode) :
    (∀ s a, ofHexWith decode s = .ok a ↔
      (digitsOf s ≠ [] ∧ (digitsOf s).length ≤ 16 ∧ ∀ c ∈ digitsOf s, c.isHexDigit) ∧
        Nat.ofDigits 256 a.bytes.reverse = Nat.ofDigits 16 ((digitsOf s).map hexValue).reverse) ∧
    (∀ s a, ofHexWith decode s = .ok a →
      "0x" ++ a.hexWith encode =
        "0x" ++ String.ofList (((digitsOf s).map Char.toLower).leftpad 16 '0')) ∧
    (∀ a : Address, ofHexWith decode (a.hexWith encode) = .ok a ∧
      ofHexWith decode ("0x" ++ a.hexWith encode) = .ok a) ∧
    (∀ s, digitsOf s = [] → ofHexWith decode s = .error .empty) ∧
    (∀ s k b, digitsOf s ≠ [] → (paddedBytes (digitsOf s))[k]? = some b →
      (Char.ofNat b).isHexDigit = false →
      (∀ j < k, ∀ b', (paddedBytes (digitsOf s))[j]? = some b' → (Char.ofNat b').isHexDigit) →
      ofHexWith decode s = .error (.badDigit (Char.ofNat b) k)) ∧
    (∀ s, digitsOf s ≠ [] → (∀ c ∈ digitsOf s, c.isHexDigit) → 16 < (digitsOf s).length →
      ofHexWith decode s = .error .tooLong) := by
  refine ⟨ofHexWith_eq_ok_iff hdec, fun _ _ h => hexWith_of_ofHexWith hdec henc h, fun a => ⟨?_, ?_⟩,
    fun _ h => ofHexWith_of_nil h, fun s k b hne hk hb hpre => ?_, fun s hne hhex hlen => ?_⟩
  case refine_1 =>
    exact ofHexWith_of_digitsOf_hexWith hdec henc
      (digitsOf_of_hexDigits fun _ => isHexDigit_of_mem_hexWith henc)
  case refine_2 => exact ofHexWith_of_digitsOf_hexWith hdec henc (digitsOf_prefixed a)
  case refine_3 =>
    -- the bytes are taken as characters of their codes
    rw [isHexDigit_ofNat] at hb
    refine ofHexWith_of_bad hdec hne hk (by simpa using hb) fun j hj b' hb' => ?_
    rw [← isHexDigit_ofNat]
    exact hpre j hj b' hb'
  case refine_4 => rw [ofHexWith_of_hexDigits hdec hne hhex, if_pos hlen]

-- The same with the address's own decoder and encoder.
theorem reads_hex_text :
    (∀ s a, ofHex? s = .ok a ↔
      (digitsOf s ≠ [] ∧ (digitsOf s).length ≤ 16 ∧ ∀ c ∈ digitsOf s, c.isHexDigit) ∧
        Nat.ofDigits 256 a.bytes.reverse = Nat.ofDigits 16 ((digitsOf s).map hexValue).reverse) ∧
    (∀ s a, ofHex? s = .ok a →
      a.literal = "0x" ++ String.ofList (((digitsOf s).map Char.toLower).leftpad 16 '0')) ∧
    (∀ a : Address, ofHex? a.hex = .ok a ∧ ofHex? a.literal = .ok a) ∧
    (∀ s, digitsOf s = [] → ofHex? s = .error .empty) ∧
    (∀ s k b, digitsOf s ≠ [] → (paddedBytes (digitsOf s))[k]? = some b →
      (Char.ofNat b).isHexDigit = false →
      (∀ j < k, ∀ b', (paddedBytes (digitsOf s))[j]? = some b' → (Char.ofNat b').isHexDigit) →
      ofHex? s = .error (.badDigit (Char.ofNat b) k)) ∧
    (∀ s, digitsOf s ≠ [] → (∀ c ∈ digitsOf s, c.isHexDigit) → 16 < (digitsOf s).length →
      ofHex? s = .error .tooLong) :=
  reads_hex_text_with decodesPairs_pairs encodesHex_hexByte

end Address

end ContractDeploy
