import Comodoo.CheckIso
import Comodoo.ImplantIso

set_option autoImplicit false

/-!
# The application data of an ISO image

What `implantISOFile` writes into the application data, `parsepvd` of the checker reads back.
-/
namespace Comodoo.IsoAppData
open CString IsoImage ImplantIso CheckIso

/-- Text that has been written, and the blanks behind it. -/
def padded (text : Str) : Str × ℕ :=
  (text ++ List.replicate (512 - text.length) 0x20, text.length)

theorem writeAppData_padded {text valstr : Str} (h : text.length + valstr.length ≤ 511) :
    writeAppData (padded text) valstr = some (padded (text ++ valstr)) := by
  have hspaces : 512 - text.length - valstr.length = 512 - (text.length + valstr.length) := by omega
  unfold writeAppData padded writeAt
  rw [if_neg (by dsimp only; omega)]
  simp [List.drop_append, hspaces]

def statusText (supported : Bool) : Str :=
  if supported then ascii "RHLISOSTATUS=1" else ascii "RHLISOSTATUS=0"

def fields (md5str fragstr : Str) (supported : Bool) : List Str :=
  [ascii "ISO MD5SUM = ", md5str, ascii ";", ascii "SKIPSECTORS = 15", ascii ";",
    statusText supported, ascii ";", ascii "FRAGMENT SUMS = ", fragstr, ascii ";",
    ascii "FRAGMENT COUNT = 20", ascii ";",
    ascii "THIS IS NOT THE SAME AS RUNNING MD5SUM ON THIS ISO!!"]

theorem length_statusText (supported : Bool) : (statusText supported).length = 14 := by
  cases supported <;> rfl

theorem foldlM_writeAppData {text : Str} {valstrs : List Str}
    (h : text.length + valstrs.flatten.length ≤ 511) :
    valstrs.foldlM writeAppData (padded text) = some (padded (text ++ valstrs.flatten)) := by
  induction valstrs generalizing text with
  | nil => simp
  | cons valstr valstrs ih =>
    rw [List.flatten_cons, List.length_append] at h
    rw [List.foldlM_cons, writeAppData_padded (by omega)]
    refine (ih ?_).trans ?_
    · rw [List.length_append]
      omega
    · rw [List.flatten_cons, List.append_assoc]

section
variable {md5str fragstr : Str} (supported : Bool)

theorem length_fields (hmd5 : md5str.length = 32) (hfrag : fragstr.length = 60) :
    (fields md5str fragstr supported).flatten.length = 227 := by
  simp [fields, hmd5, hfrag, length_statusText, ascii]

theorem newAppdata_eq (hmd5 : md5str.length = 32) (hfrag : fragstr.length = 60) :
    newAppdata md5str fragstr supported =
      some ((fields md5str fragstr supported).flatten ++ List.replicate 285 0x20) := by
  have hlength := length_fields supported hmd5 hfrag
  have hfold : newAppdata md5str fragstr supported =
      ((fields md5str fragstr supported).foldlM writeAppData (padded [])).map Prod.fst := by
    have hcount : ascii "FRAGMENT COUNT = " ++ DecimalText.decimal FRAGMENT_COUNT =
      ascii "FRAGMENT COUNT = 20" := by decide +kernel
    have hskip : ascii "SKIPSECTORS = " ++ DecimalText.decimal SKIPSECTORS =
      ascii "SKIPSECTORS = 15" := by decide +kernel
    unfold newAppdata fields
    rw [hcount, hskip]
    simp only [List.foldlM_cons, List.foldlM_nil, bind, Option.map_bind, Function.comp_def]
    rfl
  rw [hfold, foldlM_writeAppData (by rw [hlength]; decide), List.nil_append]
  unfold padded
  rw [Option.map_some, hlength]

end

/-! ## Reading it back -/

theorem parseLoop_step {passes : ℕ} {f f' : Fields} {p p' : Str} (hp : p ≠ [])
    (h : parseField f p = some (f', p')) (hcomplete : f'.complete = false) :
    parseLoop (passes + 1) f p = parseLoop passes f' p' := by
  rw [parseLoop, if_neg hp, h]
  dsimp only
  rw [if_neg (by rw [hcomplete]; nofun)]

theorem parseLoop_last {passes : ℕ} {f f' : Fields} {p p' : Str} (hp : p ≠ [])
    (h : parseField f p = some (f', p')) (hcomplete : f'.complete = true) :
    parseLoop (passes + 1) f p = some f' := by
  rw [parseLoop, if_neg hp, h]
  dsimp only
  rw [if_pos hcomplete]

section
variable (f : Fields) (rest : Str)

theorem parseField_semicolon : parseField f (semicolon :: rest) = some (f, rest) := rfl

theorem parseField_md5sum {md5str : Str} (hmd5 : md5str.length = 32)
    (hroom : 467 ≤ (md5str ++ semicolon :: rest).length) :
    parseField f (ascii "ISO MD5SUM = " ++ (md5str ++ semicolon :: rest)) =
      some ({ f with mediasum := some md5str }, semicolon :: rest) := by
  have hkey : (ascii "ISO MD5SUM = ").isPrefixOf
      (ascii "ISO MD5SUM = " ++ (md5str ++ semicolon :: rest)) = true := rfl
  have hloc : ¬ 512 - (ascii "ISO MD5SUM = " ++ (md5str ++ semicolon :: rest)).length + 32 + 13 >
      511 := by
    rw [List.length_append, show (ascii "ISO MD5SUM = ").length = 13 from rfl]
    omega
  have htake : (md5str ++ semicolon :: rest).take 32 = md5str := List.take_left' hmd5
  have hdrop : (md5str ++ semicolon :: rest).drop 32 = semicolon :: rest := List.drop_left' hmd5
  unfold parseField
  dsimp only
  rw [if_pos hkey, if_neg hloc]
  change some ({ f with mediasum := some ((md5str ++ semicolon :: rest).take 32) },
    ((md5str ++ semicolon :: rest).drop 32).dropWhile (· ≠ semicolon)) = _
  rw [htake, hdrop]
  rfl

theorem parseField_skipsectors (hroom : 15 ≤ rest.length) :
    parseField f (ascii "SKIPSECTORS = 15" ++ semicolon :: rest) =
      some ({ f with skipsectors := some 15 }, semicolon :: rest) := by
  have hmd5 : ¬ (ascii "ISO MD5SUM = ").isPrefixOf
      (ascii "SKIPSECTORS = 15" ++ semicolon :: rest) = true := Bool.false_ne_true
  have hkey : (ascii "SKIPSECTORS = ").isPrefixOf
      (ascii "SKIPSECTORS = 15" ++ semicolon :: rest) = true := rfl
  have hloc : ¬ 512 - (ascii "SKIPSECTORS = 15" ++ semicolon :: rest).length + 14 > 511 := by
    rw [List.length_append, show (ascii "SKIPSECTORS = 15").length = 16 from rfl]
    rw [List.length_cons]
    omega
  have hnumber : cString (((ascii "SKIPSECTORS = 15" ++ semicolon :: rest).drop 14).takeWhile
      (· ≠ semicolon)) = ascii "15" := rfl
  have hunread : ¬ strtolRest (cString (((ascii "SKIPSECTORS = 15" ++ semicolon :: rest).drop
      14).takeWhile (· ≠ semicolon))) ≠ [] := by
    rw [hnumber]
    decide
  unfold parseField
  dsimp only
  rw [if_neg hmd5, if_pos hkey, if_neg hloc, if_neg hunread, hnumber]
  rfl

theorem parseField_status (supported : Bool) :
    parseField f (statusText supported ++ semicolon :: rest) =
      some ({ f with supported := some (if supported then 1 else 0) }, semicolon :: rest) := by
  cases supported <;> rfl

theorem parseField_fragmentsums {fragstr : Str} (hfrag : fragstr.length = 60)
    (hroom : 61 ≤ (fragstr ++ semicolon :: rest).length) :
    parseField f (ascii "FRAGMENT SUMS = " ++ (fragstr ++ semicolon :: rest)) =
      some ({ f with fragmentsums := some fragstr }, semicolon :: rest) := by
  have hmd5 : ¬ (ascii "ISO MD5SUM = ").isPrefixOf
      (ascii "FRAGMENT SUMS = " ++ (fragstr ++ semicolon :: rest)) = true := Bool.false_ne_true
  have hskip : ¬ (ascii "SKIPSECTORS = ").isPrefixOf
      (ascii "FRAGMENT SUMS = " ++ (fragstr ++ semicolon :: rest)) = true := Bool.false_ne_true
  have hone : ¬ (ascii "RHLISOSTATUS=1").isPrefixOf
      (ascii "FRAGMENT SUMS = " ++ (fragstr ++ semicolon :: rest)) = true := Bool.false_ne_true
  have hzero : ¬ (ascii "RHLISOSTATUS=0").isPrefixOf
      (ascii "FRAGMENT SUMS = " ++ (fragstr ++ semicolon :: rest)) = true := Bool.false_ne_true
  have hkey : (ascii "FRAGMENT SUMS = ").isPrefixOf
      (ascii "FRAGMENT SUMS = " ++ (fragstr ++ semicolon :: rest)) = true := rfl
  have hloc : ¬ 512 - (ascii "FRAGMENT SUMS = " ++ (fragstr ++ semicolon :: rest)).length +
      60 > 511 := by
    rw [List.length_append, show (ascii "FRAGMENT SUMS = ").length = 16 from rfl]
    omega
  have htake : (fragstr ++ semicolon :: rest).take 60 = fragstr := List.take_left' hfrag
  have hdrop : (fragstr ++ semicolon :: rest).drop 60 = semicolon :: rest := List.drop_left' hfrag
  unfold parseField
  dsimp only
  rw [if_neg hmd5, if_neg hskip, if_neg hone, if_neg hzero, if_pos hkey, if_neg hloc]
  change some ({ f with fragmentsums := some ((fragstr ++ semicolon :: rest).take 60) },
    ((fragstr ++ semicolon :: rest).drop 60).dropWhile (· ≠ semicolon)) = _
  rw [htake, hdrop]
  rfl

theorem parseField_fragmentcount (hroom : 18 ≤ rest.length) :
    parseField f (ascii "FRAGMENT COUNT = 20" ++ semicolon :: rest) =
      some ({ f with fragmentcount := some 20 }, semicolon :: rest) := by
  have hmd5 : ¬ (ascii "ISO MD5SUM = ").isPrefixOf
      (ascii "FRAGMENT COUNT = 20" ++ semicolon :: rest) = true := Bool.false_ne_true
  have hskip : ¬ (ascii "SKIPSECTORS = ").isPrefixOf
      (ascii "FRAGMENT COUNT = 20" ++ semicolon :: rest) = true := Bool.false_ne_true
  have hone : ¬ (ascii "RHLISOSTATUS=1").isPrefixOf
      (ascii "FRAGMENT COUNT = 20" ++ semicolon :: rest) = true := Bool.false_ne_true
  have hzero : ¬ (ascii "RHLISOSTATUS=0").isPrefixOf
      (ascii "FRAGMENT COUNT = 20" ++ semicolon :: rest) = true := Bool.false_ne_true
  have hsums : ¬ (ascii "FRAGMENT SUMS = ").isPrefixOf
      (ascii "FRAGMENT COUNT = 20" ++ semicolon :: rest) = true := Bool.false_ne_true
  have hkey : (ascii "FRAGMENT COUNT = ").isPrefixOf
      (ascii "FRAGMENT COUNT = 20" ++ semicolon :: rest) = true := rfl
  have hloc : ¬ 512 - (ascii "FRAGMENT COUNT = 20" ++ semicolon :: rest).length + 17 > 511 := by
    rw [List.length_append, show (ascii "FRAGMENT COUNT = 20").length = 19 from rfl]
    rw [List.length_cons]
    omega
  have hnumber : cString (((ascii "FRAGMENT COUNT = 20" ++ semicolon :: rest).drop 17).takeWhile
      (· ≠ semicolon)) = ascii "20" := rfl
  have hunread : ¬ strtolRest (cString (((ascii "FRAGMENT COUNT = 20" ++ semicolon :: rest).drop
      17).takeWhile (· ≠ semicolon))) ≠ [] := by
    rw [hnumber]
    decide
  unfold parseField
  dsimp only
  rw [if_neg hmd5, if_neg hskip, if_neg hone, if_neg hzero, if_neg hsums, if_pos hkey, if_neg hloc,
    if_neg hunread, hnumber]
  rfl

end

theorem parseLoop_fields {md5str fragstr : Str} (rest : Str) (hmd5 : md5str.length = 32)
    (hfrag : fragstr.length = 60) (hrest : 337 ≤ rest.length) (supported : Bool) :
    parseLoop 512 ⟨none, none, none, none, none⟩ (ascii "ISO MD5SUM = " ++ (md5str ++ semicolon ::
      (ascii "SKIPSECTORS = 15" ++ semicolon :: (statusText supported ++ semicolon ::
      (ascii "FRAGMENT SUMS = " ++ (fragstr ++ semicolon ::
      (ascii "FRAGMENT COUNT = 20" ++ semicolon :: rest))))))) =
      some ⟨some md5str, some 15, some (if supported then 1 else 0), some fragstr, some 20⟩ := by
  have hstatus := length_statusText supported
  have hcount : 356 ≤ (ascii "FRAGMENT COUNT = 20" ++ semicolon :: rest).length := by
    rw [List.length_append, List.length_cons, show (ascii "FRAGMENT COUNT = 20").length = 19 from rfl]
    omega
  have hsums : 432 ≤ (ascii "FRAGMENT SUMS = " ++ (fragstr ++ semicolon ::
      (ascii "FRAGMENT COUNT = 20" ++ semicolon :: rest))).length := by
    rw [List.length_append, List.length_append, List.length_cons, hfrag,
      show (ascii "FRAGMENT SUMS = ").length = 16 from rfl]
    omega
  rw [parseLoop_step (by simp) (parseField_md5sum _ _ hmd5 ?_) rfl,
    parseLoop_step (by simp) (parseField_semicolon _ _) rfl,
    parseLoop_step (by simp [ascii]) (parseField_skipsectors _ _ ?_) rfl,
    parseLoop_step (by simp) (parseField_semicolon _ _) rfl,
    parseLoop_step (by simp) (parseField_status _ _ supported) rfl,
    parseLoop_step (by simp) (parseField_semicolon _ _) rfl,
    parseLoop_step (by simp) (parseField_fragmentsums _ _ hfrag ?_) rfl,
    parseLoop_step (by simp) (parseField_semicolon _ _) rfl]
  · exact parseLoop_last (by simp) (parseField_fragmentcount _ _ (by omega)) rfl
  · simp only [List.length_append, List.length_cons] at hcount ⊢
    omega
  · simp only [List.length_append, List.length_cons] at hsums ⊢
    omega
  · simp only [List.length_append, List.length_cons, hmd5, hstatus] at hsums ⊢
    omega

theorem parseAppData_fields {md5str fragstr : Str} (hmd5 : md5str.length = 32)
    (hfrag : fragstr.length = 60) (supported : Bool) :
    parseAppData ((fields md5str fragstr supported).flatten ++ List.replicate 285 0x20) =
      some ⟨some md5str, some 15, some (if supported then 1 else 0), some fragstr, some 20⟩ := by
  have hlength := length_fields supported hmd5 hfrag
  have hcut : ((fields md5str fragstr supported).flatten ++ List.replicate 285 0x20).take 511 ++ [0] =
      (fields md5str fragstr supported).flatten ++ (List.replicate 284 0x20 ++ [0]) := by
    rw [List.take_append, hlength, List.take_of_length_le (by omega), List.take_replicate,
      List.append_assoc]
    rfl
  unfold parseAppData
  dsimp only
  rw [hcut, ← parseLoop_fields (ascii "THIS IS NOT THE SAME AS RUNNING MD5SUM ON THIS ISO!!" ++
    (List.replicate 284 0x20 ++ [0])) hmd5 hfrag]
  · simp only [fields, List.flatten_cons, List.flatten_nil, List.append_nil, List.append_assoc]
    rfl
  · rw [List.length_append, List.length_append, List.length_replicate]
    decide

end Comodoo.IsoAppData
