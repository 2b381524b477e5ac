import Mathlib.Data.List.Basic
import Rpc.Native.Evp
import Rpc.Spec.EncryptCorrect

/-!
# What is encrypted is decrypted

With a library behind the calls that does what its documentation says (`Documented`),
`aes_encrypt` returns the text XORed with the keystream and the tag (`result_encrypt`), and
`aes_decrypt` undoes it if the tag is right (`result_decrypt`).  So with the same key and IV
it accepts what `aes_encrypt` has returned and nothing else (`decrypt_inverts_encrypt`).
-/

namespace Rpc.Aes

open Dialogue

namespace OpenSsl

variable (ssl : OpenSsl)

/-! ## Counter mode -/

/-- The stream cipher keeps the length. -/
theorem length_stream (key iv : Bytes) (pos : Nat) (data : Bytes) :
    (ssl.stream key iv pos data).length = data.length :=
  List.length_mapIdx

/-- The keystream cancels itself. -/
theorem stream_stream (key iv : Bytes) (pos : Nat) (data : Bytes) :
    ssl.stream key iv pos (ssl.stream key iv pos data) = data := by
  apply List.ext_getElem
  · rw [length_stream, length_stream]
  · intro i h₁ h₂
    simp only [stream, List.getElem_mapIdx, UInt8.xor_assoc, UInt8.xor_self, UInt8.xor_zero]

/-! ## One call after the other -/

variable {ssl} {holds : ssl.State → EvpCtx → Prop} {s : ssl.State}

/-- A check that does not throw goes on. -/
theorem play_check {cond : Prop} [Decidable cond] {what : String} {f : Unit → Program Bytes}
    (h : ¬cond) : play ssl.serve s (check cond what >>= f).run = play ssl.serve s (f ()).run := by
  have heq : (check cond what >>= f).run = (f ()).run := by
    simp only [check, throwIf, if_neg h]
    rfl
  rw [heq]

/-- A check that throws ends the program. -/
theorem play_throw {cond : Prop} [Decidable cond] {what : String} {f : Unit → Program Bytes}
    (h : cond) : play ssl.serve s (check cond what >>= f).run =
      (s, .error (.runtimeError (Bytes.ofString what))) := by
  have heq : (check cond what >>= f).run =
      .done (.error (.runtimeError (Bytes.ofString what))) := by
    simp only [check, throwIf, if_pos h]
    rfl
  rw [heq, play]

/-- A call is served, and the program goes on with the answer. -/
theorem play_request (q : Evp) (f : Answer → Program Bytes) :
    play ssl.serve s (request q >>= f).run =
      play ssl.serve (ssl.serve s q).1 (f (ssl.serve s q).2).run :=
  rfl

/-- A call that succeeds is followed by the rest of the program. -/
theorem Succeeds.play_call {q : Evp} {out : Bytes} {c : EvpCtx}
    (h : ssl.Succeeds holds s q out c) (what : String) (f : Answer → Program Bytes) :
    ∃ s', holds s' c ∧
      play ssl.serve s (call q what >>= f).run = play ssl.serve s' (f ⟨1, out⟩).run := by
  obtain ⟨hans, hctx⟩ := h
  refine ⟨(ssl.serve s q).1, hctx, ?_⟩
  -- the library returns 1, so that the check behind the call passes
  have hcall : play ssl.serve s (call q what).run = ((ssl.serve s q).1, .ok ⟨1, out⟩) := by
    simp only [call_run, play, hans, if_true]
  rw [ExceptT.run_bind, play_bind, hcall]

/-! ## The buffers -/

/-- The bytes written to a buffer of zeros, cut to their number. -/
theorem resize_blit {out : Bytes} {n : Nat} (h : out.length ≤ n) :
    resize (((List.replicate n 0).blit 0 out).blit out.length []) (out.length + 0) = out := by
  obtain ⟨m, rfl⟩ := Nat.exists_eq_add_of_le h
  have hfirst : (List.replicate (out.length + m) 0).blit 0 out = out ++ List.replicate m 0 :=
    List.blit_zeros [] out 0 _ m rfl rfl
  -- the last call writes nothing behind the first
  have hlast : (out ++ List.replicate m 0).blit out.length [] = out ++ List.replicate m 0 := by
    have hzeros := List.blit_zeros out [] out.length m m rfl (Nat.zero_add m).symm
    rwa [List.append_nil] at hzeros
  rw [hfirst, hlast, resize, Nat.add_zero, List.take_left, List.length_append]
  simp

/-- A tag fills its buffer. -/
theorem blit_tag {tag : Bytes} (h : tag.length = 16) :
    (List.replicate 16 0).blit 0 tag = tag := by
  have hzeros := List.blit_zeros [] tag 0 16 0 rfl (by omega)
  simpa using hzeros

/-- `static_cast<int>` of a length. -/
theorem ofNat_nonneg {n : Nat} (h : n % 2 ^ 32 < 2 ^ 31) :
    0 ≤ Int32.ofNat n ∧ (Int32.ofNat n).toInt = (n % 2 ^ 32 : Nat) := by
  have hint : (Int32.ofNat n).toInt = (n % 2 ^ 32 : Nat) := by
    rw [Int32.toInt_ofNat']
    simp only [Int.bmod, Int32.size]
    omega
  refine ⟨?_, hint⟩
  rw [Int32.le_iff_toInt_le, hint]
  exact Int.natCast_nonneg _

/-! ## What is returned -/

section Documented

variable (h : ssl.Documented holds) {key iv : Bytes} (hkey : key.length = 32)
  (hiv : iv.length = 12)

include h

include hkey hiv in
/-- A new context that has got the key and the IV. -/
theorem play_setup (d : Direction) (noCtx noInit noLen noKey : String)
    (f : Answer → Program Bytes) :
    ∃ s', holds s' (.keyed d key iv [] []) ∧
      play ssl.serve s (request .ctxNew >>= fun ctx => check (ctx.ret = 0) noCtx >>= fun _ =>
        call (.init d) noInit >>= fun _ => call (.setIvLen 12) noLen >>= fun _ =>
          call (.setKeyIv d key iv) noKey >>= f).run = play ssl.serve s' (f ⟨1, []⟩).run := by
  obtain ⟨hctx, hcreated⟩ := h.ctxNew s
  rw [play_request, play_check hctx]
  -- each call leaves the context as the next one needs it
  obtain ⟨s₁, hchosen, heq⟩ := (h.init _ d hcreated).play_call noInit _
  rw [heq]
  obtain ⟨s₂, hchosen, heq⟩ := (h.setIvLen _ d hchosen).play_call noLen _
  rw [heq]
  exact (h.setKeyIv _ d key iv hchosen hkey hiv).play_call noKey f

/-- The call that hands the data over. -/
theorem play_update {d : Direction} (data : Bytes) (n : Nat)
    (hctx : holds s (.keyed d key iv [] [])) (hint : n % 2 ^ 32 < 2 ^ 31)
    (hn : n ≤ data.length) (what : String) (f : Answer → Program Bytes) :
    ∃ s', holds s' (.keyed d key iv (d.ciphertext (data.take (n % 2 ^ 32))
        (ssl.stream key iv 0 (data.take (n % 2 ^ 32)))) []) ∧
      play ssl.serve s (call (.update d data (Int32.ofNat n)) what >>= f).run =
        play ssl.serve s' (f ⟨1, ssl.stream key iv 0 (data.take (n % 2 ^ 32))⟩).run := by
  obtain ⟨hnonneg, hlen⟩ := ofNat_nonneg hint
  -- the length is handed over as an `int`, and read back as the same number
  have hcall := h.update s d key iv [] [] data (Int32.ofNat n) hctx hnonneg (by
    rw [hlen]
    omega)
  simp only [hlen, Int.toNat_natCast] at hcall
  exact hcall.play_call what f

include hkey hiv in
/-- The text is encrypted as far as its length fits an `int`, and the tag follows. -/
theorem result_encrypt {plaintext : Bytes} (hlen : plaintext.length % 2 ^ 32 < 2 ^ 31) :
    ssl.result .encrypt plaintext key iv =
      .ok (ssl.stream key iv 0 (plaintext.take (plaintext.length % 2 ^ 32)) ++
        ssl.tag key iv (ssl.stream key iv 0 (plaintext.take (plaintext.length % 2 ^ 32)))) := by
  -- what is written fits the buffer of the function
  have hout : (ssl.stream key iv 0 (plaintext.take (plaintext.length % 2 ^ 32))).length ≤
      plaintext.length + 16 := by
    rw [length_stream, List.length_take]
    omega
  rw [result, crypt, aesEncrypt, play_check (by simpa using hkey), play_check (by simpa using hiv)]
  obtain ⟨s₁, hctx, heq⟩ := play_setup h hkey hiv (s := ssl.start) .encrypt _ _ _ _ _
  rw [heq]
  obtain ⟨s₂, hctx, heq⟩ := play_update h _ _ hctx hlen Nat.le.refl _ _
  rw [heq]
  obtain ⟨s₃, hctx, heq⟩ := (h.finalEncrypt _ _ _ _ _ hctx).play_call _ _
  rw [heq]
  obtain ⟨s₄, hctx, heq⟩ := (h.getTag _ _ _ _ hctx).play_call _ _
  rw [heq, play_request]
  -- the last two calls write nothing, and the tag
  exact congrArg Except.ok
    (congrArg₂ (· ++ ·) (resize_blit hout) (blit_tag (h.length_tag key iv _)))

include hkey hiv in
/-- The text is decrypted if the tag at its end is that of the part before it. -/
theorem result_decrypt {text tag : Bytes} (htag : tag.length = 16) (hlen : text.length < 2 ^ 31) :
    ssl.result .decrypt (text ++ tag) key iv =
      if tag = ssl.tag key iv text then .ok (ssl.stream key iv 0 text)
      else .error (.runtimeError (Bytes.ofString
        "aes_decrypt: authentication failed (wrong key or tampered data)")) := by
  have hct : (text ++ tag).length - 16 = text.length := by
    rw [List.length_append, htag, Nat.add_sub_cancel]
  have hmod : text.length % 2 ^ 32 = text.length := by omega
  have hout : (ssl.stream key iv 0 text).length ≤ text.length + 16 := by
    rw [length_stream]
    omega
  rw [result, crypt, aesDecrypt, play_check (by simpa using hkey), play_check (by simpa using hiv),
    play_check (by simp [htag]), hct]
  obtain ⟨s₁, hctx, heq⟩ := play_setup h hkey hiv (s := ssl.start) .decrypt _ _ _ _ _
  rw [heq, List.drop_left]
  obtain ⟨s₂, hctx, heq⟩ := play_update h (text ++ tag) text.length hctx (by omega)
    (by simp) _ _
  rw [heq]
  rw [hmod, List.take_left] at hctx ⊢
  -- the tag is set before the last call compares it
  obtain ⟨s₃, hctx, heq⟩ := (h.setTag _ _ _ _ _ _ hctx htag).play_call _ _
  rw [heq, play_request, play_request]
  obtain ⟨hnone, hret⟩ := h.finalDecrypt _ _ _ _ _ hctx
  by_cases htrue : tag = ssl.tag key iv text
  · rw [if_pos htrue, play_check (not_not.mpr (hret.mpr htrue)), hnone]
    exact congrArg Except.ok (resize_blit hout)
  · rw [if_neg htrue, play_throw (mt hret.mp htrue)]

omit h in
include hkey hiv in
/-- Data without room for a tag is refused. -/
theorem result_short {data : Bytes} (hshort : data.length < 16) :
    ∃ fault, ssl.result .decrypt data key iv = .error fault := by
  refine ⟨.runtimeError (Bytes.ofString "aes_decrypt: ciphertext too short"), ?_⟩
  rw [result, crypt, aesDecrypt, play_check (by simpa using hkey), play_check (by simpa using hiv),
    play_throw hshort]

include hkey hiv in
/-- A text that an `int` can count is encrypted as a whole. -/
theorem result_encrypt_of_lt {plaintext : Bytes} (hlen : plaintext.length < 2 ^ 31) :
    ssl.result .encrypt plaintext key iv =
      .ok (ssl.stream key iv 0 plaintext ++ ssl.tag key iv (ssl.stream key iv 0 plaintext)) := by
  have hmod : plaintext.length % 2 ^ 32 = plaintext.length := by omega
  rw [result_encrypt h hkey hiv (by omega), hmod, List.take_length]

include hkey hiv in
/-- What `aes_encrypt` returns for such a text is decrypted to it. -/
theorem result_decrypt_encrypted {plaintext : Bytes} (hlen : plaintext.length < 2 ^ 31) :
    ssl.result .decrypt
        (ssl.stream key iv 0 plaintext ++ ssl.tag key iv (ssl.stream key iv 0 plaintext)) key iv =
      .ok plaintext := by
  rw [result_decrypt h hkey hiv (h.length_tag _ _ _) (by rwa [length_stream]), if_pos rfl,
    stream_stream]

include hkey hiv in
/-- What is accepted has been encrypted. -/
theorem encrypted_of_result_decrypt {data plaintext : Bytes} (hlen : data.length < 2 ^ 31 + 16)
    (haccept : ssl.result .decrypt data key iv = .ok plaintext) :
    plaintext.length < 2 ^ 31 ∧ ssl.result .encrypt plaintext key iv = .ok data := by
  -- what is too short for a tag is refused
  have hlong : 16 ≤ data.length := by
    by_contra hshort
    obtain ⟨fault, herror⟩ := result_short hkey hiv (Nat.not_le.mp hshort)
    rw [herror] at haccept
    cases haccept
  -- the last sixteen bytes are the tag
  obtain ⟨text, tag, rfl, htag⟩ : ∃ text tag, text ++ tag = data ∧ tag.length = 16 :=
    ⟨data.take (data.length - 16), data.drop (data.length - 16), List.take_append_drop _ _, by
      rw [List.length_drop]
      omega⟩
  rw [List.length_append, htag] at hlen
  rw [result_decrypt h hkey hiv htag (by omega)] at haccept
  by_cases htrue : tag = ssl.tag key iv text
  · rw [if_pos htrue] at haccept
    obtain rfl := Except.ok.inj haccept
    have hshort : (ssl.stream key iv 0 text).length < 2 ^ 31 := by
      rw [length_stream]
      omega
    -- XORed twice, the text is as it was
    rw [result_encrypt_of_lt h hkey hiv hshort, stream_stream, ← htrue]
    exact ⟨hshort, rfl⟩
  · rw [if_neg htrue] at haccept
    cases haccept

end Documented

/-! ## A library like that -/

/-- The answer to a call, for a given keystream and tag. -/
def answer (keystream : Bytes → Bytes → Nat → UInt8) (tag : Bytes → Bytes → Bytes → Bytes) :
    EvpCtx → Evp → EvpCtx × Answer
  | _, .ctxNew => (.created, ⟨1, []⟩)
  | .created, .init d => (.chosen d, ⟨1, []⟩)
  | .chosen d, .setIvLen _ => (.chosen d, ⟨1, []⟩)
  | .chosen d, .setKeyIv _ key iv => (.keyed d key iv [] [], ⟨1, []⟩)
  | .keyed d key iv text expected, .update _ input inl =>
    let data := input.take inl.toInt.toNat
    let out := data.mapIdx fun i b => b ^^^ keystream key iv (text.length + i)
    (.keyed d key iv (text ++ d.ciphertext data out) expected, ⟨1, out⟩)
  | .keyed _ key iv text _, .final .encrypt => (.sealed key iv text, ⟨1, []⟩)
  | .keyed d key iv text expected, .final .decrypt =>
    (.keyed d key iv text expected, ⟨if expected = tag key iv text then 1 else 0, []⟩)
  | .sealed key iv text, .getTag _ => (.sealed key iv text, ⟨1, tag key iv text⟩)
  | .keyed d key iv text _, .setTag expected => (.keyed d key iv text expected, ⟨1, []⟩)
  | c, _ => (c, ⟨0, []⟩)

/-- A library that never fails for want of memory. -/
def ofCipher (keystream : Bytes → Bytes → Nat → UInt8) (tag : Bytes → Bytes → Bytes → Bytes) :
    OpenSsl where
  State := EvpCtx
  start := .created
  serve := answer keystream tag
  keystream := keystream
  tag := tag

/-- Such a library does what its documentation says. -/
theorem documented_ofCipher (keystream : Bytes → Bytes → Nat → UInt8)
    {tag : Bytes → Bytes → Bytes → Bytes} (htag : ∀ key iv text, (tag key iv text).length = 16) :
    (ofCipher keystream tag).Documented Eq where
  length_tag := htag
  ctxNew c := by
    -- a context is created in every state
    have hone : (1 : Int32) ≠ 0 := by decide
    cases c <;> exact ⟨hone, rfl⟩
  init c d hctx := by
    subst hctx
    exact ⟨rfl, rfl⟩
  setIvLen c d hctx := by
    subst hctx
    exact ⟨rfl, rfl⟩
  setKeyIv c d key iv hctx _ _ := by
    subst hctx
    exact ⟨rfl, rfl⟩
  update c d key iv text expected input inl hctx _ _ := by
    subst hctx
    exact ⟨rfl, rfl⟩
  finalEncrypt c key iv text expected hctx := by
    subst hctx
    exact ⟨rfl, rfl⟩
  getTag c key iv text hctx := by
    subst hctx
    exact ⟨rfl, rfl⟩
  setTag c key iv text expected tag hctx _ := by
    subst hctx
    exact ⟨rfl, rfl⟩
  finalDecrypt c key iv text expected hctx := by
    subst hctx
    refine ⟨rfl, ?_⟩
    by_cases htrue : expected = tag key iv text
    · simp [ofCipher, answer, htrue]
    · simp [ofCipher, answer, htrue]

/-! ## The round trip -/

/-- With one key and one IV, `aes_decrypt` is the inverse of `aes_encrypt`: it accepts what
    that has returned, and nothing else.  A text too long for an `int` is cut, without an
    error, to the length that is left of it. -/
theorem decrypt_inverts_encrypt (ssl : OpenSsl) (holds : ssl.State → EvpCtx → Prop)
    (h : ssl.Documented holds) (key iv : Bytes) (hkey : key.length = 32) (hiv : iv.length = 12) :
    (∀ data plaintext : Bytes, data.length < 2 ^ 31 + 16 →
      (ssl.result .decrypt data key iv = .ok plaintext ↔
        plaintext.length < 2 ^ 31 ∧ ssl.result .encrypt plaintext key iv = .ok data)) ∧
    ∀ plaintext : Bytes, plaintext.length % 2 ^ 32 < 2 ^ 31 →
      ∃ data, ssl.result .encrypt plaintext key iv = .ok data ∧
        ssl.result .decrypt data key iv = .ok (plaintext.take (plaintext.length % 2 ^ 32)) := by
  constructor
  · intro data plaintext hlen
    refine ⟨encrypted_of_result_decrypt h hkey hiv hlen, fun ⟨hshort, haccept⟩ => ?_⟩
    rw [result_encrypt_of_lt h hkey hiv hshort] at haccept
    -- the data are what the encryption returned
    obtain rfl := Except.ok.inj haccept
    exact result_decrypt_encrypted h hkey hiv hshort
  · intro plaintext hlen
    refine ⟨_, result_encrypt h hkey hiv hlen, result_decrypt_encrypted h hkey hiv ?_⟩
    -- what is left of a text that was cut fits an `int`
    rw [List.length_take]
    omega

/-- The cipher for the key and the IV that are all zeros, and a text of one block. -/
def zeroSsl : OpenSsl :=
  ofCipher
    (fun _ _ i => [0xce, 0xa7, 0x40, 0x3d, 0x4d, 0x60, 0x6b, 0x6e, 0x07, 0x4e, 0xc5, 0xd3, 0xba,
      0xf3, 0x9d, 0x18].getD i 0)
    (fun _ _ _ => [0xd0, 0xd1, 0xc8, 0xa7, 0x99, 0x99, 0x6b, 0xf0, 0x26, 0x5b, 0x98, 0xb5, 0xd4,
      0x8a, 0xb9, 0x19])

/-- A block of zeros, encrypted and decrypted. -/
theorem decrypt_inverts_encrypt_zeros :
    zeroSsl.result .decrypt
        [0xce, 0xa7, 0x40, 0x3d, 0x4d, 0x60, 0x6b, 0x6e, 0x07, 0x4e, 0xc5, 0xd3, 0xba, 0xf3, 0x9d,
          0x18, 0xd0, 0xd1, 0xc8, 0xa7, 0x99, 0x99, 0x6b, 0xf0, 0x26, 0x5b, 0x98, 0xb5, 0xd4, 0x8a,
          0xb9, 0x19] (List.replicate 32 0) (List.replicate 12 0) = .ok (List.replicate 16 0) :=
  ((decrypt_inverts_encrypt zeroSsl Eq (documented_ofCipher _ fun _ _ _ => rfl)
    (List.replicate 32 0) (List.replicate 12 0) rfl rfl).1 _ _
    (by decide)).mpr ⟨by decide, by decide +kernel⟩

end OpenSsl

end Rpc.Aes
