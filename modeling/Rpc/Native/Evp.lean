import Rpc.Native.Encrypt

/-!
# OpenSSL behind the calls

`encrypt.cpp` needs a library that answers its calls (`OpenSsl`).  What the library does
is not part of the repository: `Documented` says what its documentation promises of a
context of AES-256-GCM, of which none fails for want of memory.  Counter mode XORs a
keystream into the text, which depends on the key, the IV and the place in the text only;
the tag is a function of the key, the IV and the ciphertext.
-/

namespace Rpc.Aes

/-- What a context holds. -/
inductive EvpCtx where
  | created
  /-- the cipher is chosen -/
  | chosen (d : Direction)
  /-- `text` is the ciphertext so far, `expected` the tag it is to have -/
  | keyed (d : Direction) (key iv text expected : Bytes)
  /-- the encryption is over -/
  | sealed (key iv text : Bytes)
  deriving DecidableEq, Repr

/-- Which of the input and the output of an update is ciphertext. -/
def Direction.ciphertext : Direction → Bytes → Bytes → Bytes
  | .encrypt, _, out => out
  | .decrypt, data, _ => data

/-- A library that answers the calls, and its cipher. -/
structure OpenSsl where
  State : Type
  start : State
  serve : State → Evp → State × Answer
  keystream : Bytes → Bytes → Nat → UInt8
  tag : Bytes → Bytes → Bytes → Bytes

namespace OpenSsl

/-- The text from byte `pos` on, encrypted or decrypted. -/
def stream (ssl : OpenSsl) (key iv : Bytes) (pos : Nat) (data : Bytes) : Bytes :=
  data.mapIdx fun i b => b ^^^ ssl.keystream key iv (pos + i)

/-- The call returns 1, writes `out` and leaves `c` in the context. -/
def Succeeds (ssl : OpenSsl) (holds : ssl.State → EvpCtx → Prop) (s : ssl.State) (q : Evp)
    (out : Bytes) (c : EvpCtx) : Prop :=
  (ssl.serve s q).2 = ⟨1, out⟩ ∧ holds (ssl.serve s q).1 c

/-- What the documentation promises. -/
structure Documented (ssl : OpenSsl) (holds : ssl.State → EvpCtx → Prop) : Prop where
  length_tag : ∀ key iv text, (ssl.tag key iv text).length = 16
  ctxNew : ∀ s, (ssl.serve s .ctxNew).2.ret ≠ 0 ∧ holds (ssl.serve s .ctxNew).1 .created
  init : ∀ s d, holds s .created → ssl.Succeeds holds s (.init d) [] (.chosen d)
  setIvLen : ∀ s d, holds s (.chosen d) → ssl.Succeeds holds s (.setIvLen 12) [] (.chosen d)
  setKeyIv : ∀ s d key iv, holds s (.chosen d) → key.length = 32 → iv.length = 12 →
    ssl.Succeeds holds s (.setKeyIv d key iv) [] (.keyed d key iv [] [])
  update : ∀ s d key iv text expected input inl, holds s (.keyed d key iv text expected) →
    0 ≤ inl → inl.toInt ≤ input.length →
      let data := input.take inl.toInt.toNat
      let out := ssl.stream key iv text.length data
      ssl.Succeeds holds s (.update d input inl) out
        (.keyed d key iv (text ++ d.ciphertext data out) expected)
  finalEncrypt : ∀ s key iv text expected, holds s (.keyed .encrypt key iv text expected) →
    ssl.Succeeds holds s (.final .encrypt) [] (.sealed key iv text)
  getTag : ∀ s key iv text, holds s (.sealed key iv text) →
    ssl.Succeeds holds s (.getTag 16) (ssl.tag key iv text) (.sealed key iv text)
  setTag : ∀ s key iv text expected tag, holds s (.keyed .decrypt key iv text expected) →
    tag.length = 16 → ssl.Succeeds holds s (.setTag tag) [] (.keyed .decrypt key iv text tag)
  /-- nothing is left to be written, and the tag decides -/
  finalDecrypt : ∀ s key iv text expected, holds s (.keyed .decrypt key iv text expected) →
    (ssl.serve s (.final .decrypt)).2.out = [] ∧
      ((ssl.serve s (.final .decrypt)).2.ret = 1 ↔ expected = ssl.tag key iv text)

/-- What `aes_encrypt`, or `aes_decrypt`, returns or throws. -/
def result (ssl : OpenSsl) (d : Direction) (data key iv : Bytes) : Except Fault Bytes :=
  (Dialogue.play ssl.serve ssl.start (crypt d data key iv).run).2

end OpenSsl

end Rpc.Aes
