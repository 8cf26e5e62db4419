import HumanizedHash.Encoding.PngInverse

/-!
# The size of a PNG file

A token has at most nine bits for each byte that it stands for, so a stream is longer than its
content by an eighth and a few bytes at most, whatever the content is.

## Main definitions

* `streamBits`: the bits of a stream of tokens.

## Main results

* `flush_tokens`: what a writer makes of a list of tokens.
* `length_tokenBits_le`: nine bits a byte.
* `length_encodePngBytes_le`: the size of a file.

## References

* `src/src/png.cpp`.
-/

namespace HumanizedHash

open Bits

/-- The bits of a stream of tokens, with `pad` bits that fill the last byte. -/
def streamBits (ts : List Inflate.Token) (pad : ℕ) : List Bool :=
  lsb 1 1 ++ (lsb 2 1 ++ (ts.flatMap tokenBits ++ (literalBits 256 ++ List.replicate pad false)))

/-- What a writer makes of a list of tokens. -/
theorem flush_tokens (out : List UInt8) (ts : List Inflate.Token) (hts : ∀ t ∈ ts, TokenFits t) :
    ∃ bytes pad,
      (putLiteral (ts.foldl putToken (((BitWriter.new out).put 1 1).put 1 2)) 256).flush.out =
        out ++ bytes ∧ pad < 8 ∧ lsbOf bytes = streamBits ts pad := by
  have hfinal := (BitWriter.holds_new out).put (show (1 : UInt32).toNat < 2 ^ 1 by decide)
    (show 0 < 8 by decide) (by decide)
  have hkind := hfinal.put (show (1 : UInt32).toNat < 2 ^ 2 by decide)
    (BitWriter.used_put_lt _ _ _) (by decide)
  obtain ⟨htokens, hused⟩ := hkind.foldl_putToken (BitWriter.used_put_lt _ _ _) ts hts
  obtain ⟨bytes, pad, hout, hpad, hbits⟩ :=
    (htokens.putLiteral hused (show 256 < 288 by decide)).flush (BitWriter.used_put_lt _ _ _)
  refine ⟨bytes, pad, hout, hpad, ?_⟩
  rw [hbits]
  simp only [streamBits, List.append_assoc, List.nil_append]
  rfl

/-! ### Nine bits a byte -/

/-- A code for a length, with its extra bits. -/
theorem length_lengthBits_le {length : ℕ} (h : 3 ≤ length ∧ length ≤ 258) :
    (literalBits (257 + searchBase lengthBase length 28)).length +
      lengthExtra.getD (searchBase lengthBase length 28) 0 + 18 ≤ 9 * length := by
  have hcode : (literalBits (257 + searchBase lengthBase length 28)).length ≤ 8 := by
    rw [literalBits, length_msb, fixedCode]
    split_ifs <;> omega
  have hextra := extra_le.1 _ (searchLength h).1
  obtain hshort | hlong : length = 3 ∨ 4 ≤ length := by omega
  · subst hshort
    decide
  · omega

/-- **Nine bits a byte** are enough for a token. -/
theorem length_tokenBits_le {t : Inflate.Token} (ht : TokenFits t) :
    (tokenBits t).length ≤ 9 * tokenSize t := by
  cases t with
  | literal b =>
    rw [tokenBits, tokenSize, literalBits, length_msb]
    exact (fixedCode_short b.toNat).1
  | copy length dist =>
    obtain ⟨hlow, hhigh, hdist⟩ := ht
    have hlength := length_lengthBits_le ⟨hlow, hhigh⟩
    have hdi := extra_le.2 _ (searchDist hdist).1
    simp only [tokenBits, tokenSize, List.length_append, length_lsb, length_msb]
    omega

theorem length_streamBits_le {ts : List Inflate.Token} (hts : ∀ t ∈ ts, TokenFits t) (pad : ℕ) :
    (streamBits ts pad).length ≤ 9 * (ts.map tokenSize).sum + 10 + pad := by
  have htokens : (ts.flatMap tokenBits).length ≤ 9 * (ts.map tokenSize).sum := by
    induction ts with
    | nil => exact Nat.zero_le _
    | cons t ts ih =>
      have hhead := length_tokenBits_le (hts t List.mem_cons_self)
      have htail := ih fun s hs => hts s (List.mem_cons_of_mem t hs)
      rw [List.flatMap_cons, List.length_append, List.map_cons, List.sum_cons]
      omega
  have hstop : (literalBits 256).length = 7 := rfl
  simp only [streamBits, List.length_append, length_lsb, List.length_replicate, hstop]
  omega

/-! ### The file -/

/-- **The size of a stream.** -/
theorem length_deflateFixed_le (raw out : List UInt8) {bpp stride : ℕ}
    (hbpp : 1 ≤ bpp ∧ bpp ≤ 32768) (hstride : 1 ≤ stride ∧ stride ≤ 32768) :
    8 * (deflateFixed raw bpp stride out).length ≤ 8 * out.length + 9 * raw.length + 17 := by
  obtain ⟨-, hfits, hsize⟩ := expand_deflateTokens hbpp hstride (Nat.zero_le raw.length)
  obtain ⟨bytes, pad, hout, hpad, hbits⟩ := flush_tokens out _ hfits
  have hlength := length_streamBits_le hfits pad
  rw [← hbits, length_lsbOf, hsize] at hlength
  rw [deflateFixed, deflateLoop_eq, hout, List.length_append]
  omega

/-- **The size of a file**, in bits: nine for each byte of the rows. -/
theorem length_encodePngBytes_le (img : PixelView)
    (hvalid : validDimensions img.width img.height = true) :
    8 * (encodePngBytes img).length ≤ 9 * (img.height.toNat * (1 + 4 * img.width.toNat)) + 625 := by
  obtain ⟨⟨-, hwidth⟩, -, hheight⟩ := validDimensions_iff.mp hvalid
  have hstride := pngStride_mem img hwidth
  have hdeflate := length_deflateFixed_le (pngRaw img) [0x78, 0x01] (pngBpp_mem img)
    ⟨hstride.1, hstride.2.trans (by decide)⟩
  have hrow : pngStride img ≤ 1 + 4 * img.width.toNat := by
    have hbpp := Nat.mul_le_mul_left img.width.toNat (pngBpp_le img)
    rw [pngStride]
    omega
  have hrows := Nat.mul_le_mul_left img.height.toNat hrow
  rw [length_pngRaw] at hdeflate
  rw [encodePngBytes_eq img (readZlib_pngZlib img hwidth hheight).2]
  simp only [List.length_append, Png.chunk, ByteOrder.length_bigEndian, List.length_cons,
    List.length_nil, pngIhdr, pngZlib, putBe32_eq] at hdeflate ⊢
  omega

end HumanizedHash
