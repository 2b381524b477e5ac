import Rpc.ForStd.Dialogue
import Rpc.Native.Protocol

/-!
# AES-256-GCM

Model of `encrypt/encrypt.cpp`: `aes_encrypt` and `aes_decrypt` as programs that call
OpenSSL.  A call is a question, and its answer is the return value with the bytes
written to the output buffer (`*outl` is their number).  A pointer is a success if it
is not null.
-/

namespace Rpc

namespace Aes

/-- The two halves of OpenSSL's interface. -/
inductive Direction where
  | encrypt
  | decrypt
  deriving DecidableEq, Repr

/-- The calls of OpenSSL, without their context argument. -/
inductive Evp where
  /-- `EVP_CIPHER_CTX_new` -/
  | ctxNew
  /-- `EVP_EncryptInit_ex(ctx, EVP_aes_256_gcm(), nullptr, nullptr, nullptr)`, or
      `EVP_DecryptInit_ex` -/
  | init (d : Direction)
  /-- `EVP_CIPHER_CTX_ctrl(ctx, EVP_CTRL_GCM_SET_IVLEN, len, nullptr)` -/
  | setIvLen (len : Nat)
  /-- `EVP_EncryptInit_ex(ctx, nullptr, nullptr, key, iv)`, or `EVP_DecryptInit_ex` -/
  | setKeyIv (d : Direction) (key iv : Bytes)
  /-- `EVP_EncryptUpdate(ctx, out, &out_len, in, inl)`, or `EVP_DecryptUpdate` -/
  | update (d : Direction) (input : Bytes) (inl : Int32)
  /-- `EVP_EncryptFinal_ex`, or `EVP_DecryptFinal_ex` -/
  | final (d : Direction)
  /-- `EVP_CIPHER_CTX_ctrl(ctx, EVP_CTRL_GCM_GET_TAG, len, tag)` -/
  | getTag (len : Nat)
  /-- `EVP_CIPHER_CTX_ctrl(ctx, EVP_CTRL_GCM_SET_TAG, len, tag)` -/
  | setTag (tag : Bytes)
  /-- `EVP_CIPHER_CTX_free` -/
  | ctxFree
  deriving DecidableEq, Repr

/-- What a call returns, and what it writes. -/
structure Answer where
  ret : Int32
  out : Bytes
  deriving DecidableEq, Repr

/-- A function that calls OpenSSL, and can throw. -/
abbrev Program := ExceptT Fault (Dialogue Evp Answer)

/-- One call of OpenSSL. -/
def request (q : Evp) : Program Answer := ExceptT.lift (Dialogue.query q)

/-- `if (cond) throw std::runtime_error(what);` -/
def check (cond : Prop) [Decidable cond] (what : String) : Program Unit :=
  ExceptT.mk (.done (throwIf cond what))

/-- `if (q != 1) { EVP_CIPHER_CTX_free(ctx); throw std::runtime_error(what); }` -/
def call (q : Evp) (what : String) : Program Answer := do
  let ans ← request q
  if ans.ret = 1 then return ans
  else
    let _ ← request .ctxFree
    throw (.runtimeError (Bytes.ofString what))

/-- `std::string::resize`. -/
def resize (s : Bytes) (n : Nat) : Bytes := s.take n ++ List.replicate (n - s.length) 0

/-- `aes_encrypt`. -/
def aesEncrypt (plaintext key iv : Bytes) : Program Bytes := do
  check (key.length ≠ 32) "aes_encrypt: key must be 32 bytes"
  check (iv.length ≠ 12) "aes_encrypt: iv must be 12 bytes"
  let ctx ← request .ctxNew
  check (ctx.ret = 0) "aes_encrypt: EVP_CIPHER_CTX_new failed"
  let _ ← call (.init .encrypt) "aes_encrypt: init failed"
  let _ ← call (.setIvLen 12) "aes_encrypt: set IV len failed"
  let _ ← call (.setKeyIv .encrypt key iv) "aes_encrypt: key/IV set failed"
  let ciphertext : Bytes := List.replicate (plaintext.length + 16) 0
  let first ← call (.update .encrypt plaintext (Int32.ofNat plaintext.length))
    "aes_encrypt: update failed"
  let ciphertext := ciphertext.blit 0 first.out
  let total := first.out.length
  let last ← call (.final .encrypt) "aes_encrypt: final failed"
  let ciphertext := ciphertext.blit total last.out
  let total := total + last.out.length
  let ciphertext := resize ciphertext total
  let got ← call (.getTag 16) "aes_encrypt: get tag failed"
  let tag := List.blit (List.replicate 16 0) 0 got.out
  let _ ← request .ctxFree
  return ciphertext ++ tag

/-- `aes_decrypt`. -/
def aesDecrypt (ciphertext key iv : Bytes) : Program Bytes := do
  check (key.length ≠ 32) "aes_decrypt: key must be 32 bytes"
  check (iv.length ≠ 12) "aes_decrypt: iv must be 12 bytes"
  check (ciphertext.length < 16) "aes_decrypt: ciphertext too short"
  let ctLen := ciphertext.length - 16
  let tag := ciphertext.drop ctLen
  let ctx ← request .ctxNew
  check (ctx.ret = 0) "aes_decrypt: EVP_CIPHER_CTX_new failed"
  let _ ← call (.init .decrypt) "aes_decrypt: init failed"
  let _ ← call (.setIvLen 12) "aes_decrypt: set IV len failed"
  let _ ← call (.setKeyIv .decrypt key iv) "aes_decrypt: key/IV set failed"
  let plaintext : Bytes := List.replicate (ctLen + 16) 0
  let first ← call (.update .decrypt ciphertext (Int32.ofNat ctLen)) "aes_decrypt: update failed"
  let plaintext := plaintext.blit 0 first.out
  let total := first.out.length
  let _ ← call (.setTag tag) "aes_decrypt: set tag failed"
  -- the context is freed before the result is looked at
  let last ← request (.final .decrypt)
  let plaintext := plaintext.blit total last.out
  let _ ← request .ctxFree
  check (last.ret ≠ 1) "aes_decrypt: authentication failed (wrong key or tampered data)"
  let total := total + last.out.length
  return resize plaintext total

/-- `aes_encrypt` and `aes_decrypt`. -/
def crypt : Direction → Bytes → Bytes → Bytes → Program Bytes
  | .encrypt => aesEncrypt
  | .decrypt => aesDecrypt

end Aes

end Rpc
