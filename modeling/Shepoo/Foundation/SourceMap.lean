import Shepoo.Foundation.ByteSource

/-! Connections that look the same from their reads. Where one connection is an image of
another, a program that only reads cannot tell them apart. -/
namespace Shepoo.Foundation.ByteSource

variable {σ τ : Type} [Source σ] [Source τ]

/-- A read of the image delivers what a read of the original does. -/
structure SourceMap (σ τ : Type) [Source σ] [Source τ] where
  map : σ → τ
  read : ∀ n s, Source.read n (map s) = ((Source.read n s).1,map (Source.read n s).2)

namespace Records

def single (bytes : List UInt8) : Records := ⟨restore bytes [],[]⟩

theorem read_single (n : Nat) (bytes : List UInt8) :
    Source.read n (single bytes) = (bytes.take n,single (bytes.drop n)) := by
  unfold single
  by_cases h : bytes = []
  · subst h
    simp only [List.take_nil,List.drop_nil]
    rfl
  · have hcut : restore bytes [] = [⟨bytes,h⟩] := dif_neg h
    have hd : (⟨restore bytes [],[]⟩ : Records).delivered n = min n bytes.length := by
      rw [hcut]
      rfl
    rw [hcut] at hd ⊢
    change (bytes.take _,(⟨restore (bytes.drop _) [],[]⟩ : Records)) = _
    rw [hd,← List.take_eq_take_min,← List.drop_eq_drop_min]

end Records

/-- A single record is as good as the stream itself. -/
def Wire.toRecord : SourceMap Wire Records where
  map s := Records.single s.bytes
  read n s := Records.read_single n s.bytes

end Shepoo.Foundation.ByteSource
