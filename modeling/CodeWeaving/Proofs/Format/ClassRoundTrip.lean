import CodeWeaving.Format.Class
import CodeWeaving.Proofs.Json.RoundTrip

/-! Classes survive their JSON form: what is read where a class was printed is decoded as the same
class. -/
namespace CodeWeaving

/-- A float is one that JSON has numbers for. -/
def Constant.Finite : Constant → Prop
  | .float x => x.isFinite = true
  | .double x => x.isFinite = true
  | _ => True

/-- A float is read back where it is printed alone. -/
def Constant.ReadBack : Constant → Prop
  | .float x => (Json.single x).Printable
  | .double x => (Json.double x).Printable
  | _ => True

theorem Constant.ReadBack.finite {c : Constant} (h : c.ReadBack) : c.Finite := by
  cases c with
  | float x => exact h.1
  | double x => exact h.1
  | _ => trivial

/-- What holds of all literals that are pushed. -/
def Method.Literals (P : Constant → Prop) (m : Method) : Prop :=
  ∀ i ∈ m.code, ∀ c, i = .pushConstant c → P c

def ClassDefinition.Literals (P : Constant → Prop) (c : ClassDefinition) : Prop :=
  ∀ m ∈ c.methods, m.Literals P

namespace Recovers

open Decode

theorem valueKind (k : ValueKind) : Recovers ValueKind.ofJson k.toJson k := by
  apply named
  cases k <;> rfl

theorem invokeKind (k : InvokeKind) :
    Recovers (Decode.named InvokeKind.all InvokeKind.title) (.string k.title) k := by
  apply named
  cases k <;> rfl

theorem fieldAccess (a : FieldAccess) :
    Recovers (Decode.named FieldAccess.all FieldAccess.title) (.string a.title) a := by
  apply named
  cases a <;> rfl

theorem condition (c : Condition) :
    Recovers (Decode.named Condition.all Condition.title) (.string c.title) c := by
  apply named
  cases c <;> rfl

theorem label (l : Label) : Recovers Label.ofJson l.toJson l := (uint32 l.id).map Label.mk

theorem constant {c : Constant} (h : c.Finite) : Recovers Constant.ofJson c.toJson c := by
  intro w hw
  cases c with
  | null =>
    cases hw
    rfl
  | int n =>
    obtain ⟨v, rfl, hv⟩ := hw.of_tagged
    exact (int32 n).map Constant.int v hv
  | long n =>
    obtain ⟨v, rfl, hv⟩ := hw.of_tagged
    exact (int64 n).map Constant.long v hv
  | float x =>
    obtain ⟨v, rfl, hv⟩ := hw.of_tagged
    exact (single h).map Constant.float v hv
  | double x =>
    obtain ⟨v, rfl, hv⟩ := hw.of_tagged
    exact (double h).map Constant.double v hv
  | string s =>
    obtain ⟨v, rfl, hv⟩ := hw.of_tagged
    exact (string s).map Constant.string v hv

theorem methodRef (m : MethodRef) : Recovers MethodRef.ofJson m.toJson m := by
  intro w hw
  cases hw with
  | object h =>
    have howner := member "owner" h rfl (className m.owner)
    have hname := member "name" h rfl (memberName m.name)
    have hsignature := member "descriptor" h rfl (signature m.signature)
    simp [MethodRef.ofJson, membersInOrder, bind_eq_ok, howner, hname, hsignature]

theorem fieldRef (f : FieldRef) : Recovers FieldRef.ofJson f.toJson f := by
  intro w hw
  cases hw with
  | object h =>
    have howner := member "owner" h rfl (className f.owner)
    have hname := member "name" h rfl (memberName f.name)
    have htype := member "descriptor" h rfl (valueType f.type)
    simp [FieldRef.ofJson, membersInOrder, bind_eq_ok, howner, hname, htype]

theorem rawInstruction (r : RawInstruction) : Recovers RawInstruction.ofJson r.toJson r := by
  intro w hw
  cases hw with
  | object h =>
    have hopcode := member "opcode" h rfl (uint8 r.opcode)
    have hoperands := memberOr "operands" h rfl (list fun b _ => uint8 b) []
    have hpops := member "pops" h rfl (uint8 r.pops)
    have hpushes := member "pushes" h rfl (uint8 r.pushes)
    simp [RawInstruction.ofJson, membersInOrder, bind_eq_ok, hopcode, hoperands, hpops, hpushes]

/-- What a case holds is found again in it. -/
theorem instruction {i : Instruction} (h : ∀ c, i = .pushConstant c → c.Finite) :
    Recovers Instruction.ofJson i.toJson i := by
  intro w hw
  cases i with
  | pushConstant c =>
    obtain ⟨v, rfl, hv⟩ := hw.of_tagged
    exact (constant (h c rfl)).map Instruction.pushConstant v hv
  | loadLocal slot k =>
    obtain ⟨v, rfl, hv⟩ := hw.of_tagged
    exact ((uint16 slot).pair (valueKind k)).map (fun p => Instruction.loadLocal p.1 p.2) v hv
  | storeLocal slot k =>
    obtain ⟨v, rfl, hv⟩ := hw.of_tagged
    exact ((uint16 slot).pair (valueKind k)).map (fun p => Instruction.storeLocal p.1 p.2) v hv
  | invoke kind m =>
    obtain ⟨v, rfl, hv⟩ := hw.of_tagged
    exact ((invokeKind kind).pair (methodRef m)).map (fun p => Instruction.invoke p.1 p.2) v hv
  | field access f =>
    obtain ⟨v, rfl, hv⟩ := hw.of_tagged
    exact ((fieldAccess access).pair (fieldRef f)).map (fun p => Instruction.field p.1 p.2) v hv
  | new c =>
    obtain ⟨v, rfl, hv⟩ := hw.of_tagged
    exact (className c).map Instruction.new v hv
  | checkCast t =>
    obtain ⟨v, rfl, hv⟩ := hw.of_tagged
    exact (refType t).map Instruction.checkCast v hv
  | branch c l =>
    obtain ⟨v, rfl, hv⟩ := hw.of_tagged
    exact ((condition c).pair (label l)).map (fun p => Instruction.branch p.1 p.2) v hv
  | ret kind =>
    obtain ⟨v, rfl, hv⟩ := hw.of_tagged
    refine (nullable fun k _ => ⟨valueKind k, ?_⟩).map Instruction.ret v hv
    rintro w ⟨⟩ h
    cases h
  | label l =>
    obtain ⟨v, rfl, hv⟩ := hw.of_tagged
    exact (label l).map Instruction.label v hv
  | raw r =>
    obtain ⟨v, rfl, hv⟩ := hw.of_tagged
    exact (rawInstruction r).map Instruction.raw v hv
  | dup | dupX1 | dupX2 | swap | pop | pop2 =>
    cases hw
    rfl

theorem flags {mask : UInt16} (f : Flags mask) : Recovers (Flags.ofJson mask) f.toJson f := by
  have h := (uint16 f.bits).map (Flags.ofBits mask)
  rwa [Flags.ofBits_bits] at h

theorem field (f : Field) : Recovers Field.ofJson f.toJson f := by
  intro w hw
  cases hw with
  | object h =>
    have hname := member "name" h rfl (memberName f.name)
    have htype := member "descriptor" h rfl (valueType f.type)
    have hflags := memberOr "access_flags" h rfl (flags f.flags) (Flags.none _)
    simp [Field.ofJson, membersInOrder, bind_eq_ok, hname, htype, hflags]

theorem method {m : Method} (h : m.Literals Constant.Finite) :
    Recovers Method.ofJson m.toJson m := by
  intro w hw
  cases hw with
  | object hms =>
    have hname := member "name" hms rfl (memberName m.name)
    have hsignature := member "descriptor" hms rfl (signature m.signature)
    have hflags := memberOr "accessFlags" hms rfl (flags m.flags) (Flags.none _)
    have hstack := memberOr "maxStack" hms rfl (uint16 m.maxStack) 0
    have hlocals := memberOr "maxLocals" hms rfl (uint16 m.maxLocals) 0
    have hcode : Decode.member "instructions" Code.ofJson _ = .ok m.code :=
      member "instructions" hms rfl (list fun i hi => instruction (h i hi))
    simp [Method.ofJson, membersInOrder, bind_eq_ok, hname, hsignature, hflags, hstack, hlocals,
      hcode]

theorem classDefinition {c : ClassDefinition} (h : c.Literals Constant.Finite) :
    Recovers ClassDefinition.ofJson c.toJson c := by
  intro w hw
  cases hw with
  | object hms =>
    have hname := member "name" hms rfl (className c.name)
    have hsuper := memberOr "superName" hms rfl (className c.superName) .object
    have hfields := memberOr "fields" hms rfl (list fun f _ => field f) []
    have hmethods := memberOr "methods" hms rfl (list fun m hm => method (h m hm)) []
    have hwoven := memberOr "woven" hms rfl (bool c.woven) false
    simp [ClassDefinition.ofJson, membersInOrder, bind_eq_ok, hname, hsuper, hfields, hmethods,
      hwoven]

end Recovers

namespace Json

theorem printableItems_iff {items : List Json} :
    PrintableItems items ↔ ∀ v ∈ items, v.Printable := by
  induction items with
  | nil => simp [PrintableItems]
  | cons v items ih => rw [PrintableItems, ih, List.forall_mem_cons]

theorem printable_ofList {α : Type} {encode : α → Json} {l : List α}
    (h : ∀ a ∈ l, (encode a).Printable) : (ofList encode l).Printable := by
  refine printableItems_iff.2 fun v hv => ?_
  obtain ⟨a, ha, rfl⟩ := List.mem_map.1 hv
  exact h a ha

theorem printable_tagged {tag : String} {v : Json} (h : v.Printable) : (tagged tag v).Printable :=
  ⟨h, trivial⟩

theorem printable_pair {v v' : Json} (h : v.Printable) (h' : v'.Printable) :
    (array [v, v']).Printable := ⟨h, h', trivial⟩

theorem printable_ofNat {n : Nat} (h : n < 2 ^ 64) : (ofNat n).Printable := by
  constructor <;> omega

theorem printable_uint8 (n : UInt8) : (ofNat n.toNat).Printable :=
  printable_ofNat (Nat.lt_trans n.toNat_lt (by decide))

theorem printable_uint16 (n : UInt16) : (ofNat n.toNat).Printable :=
  printable_ofNat (Nat.lt_trans n.toNat_lt (by decide))

theorem printable_uint32 (n : UInt32) : (ofNat n.toNat).Printable :=
  printable_ofNat (Nat.lt_trans n.toNat_lt (by decide))

end Json

open Json

theorem Constant.printable {c : Constant} (h : c.ReadBack) : c.toJson.Printable := by
  cases c with
  | null => trivial
  | int n =>
    have hlow := n.le_toInt
    have hhigh := n.toInt_lt
    exact printable_tagged (by constructor <;> omega)
  | long n =>
    have hlow := n.le_toInt
    have hhigh := n.toInt_lt
    exact printable_tagged (by constructor <;> omega)
  | float x => exact printable_tagged h
  | double x => exact printable_tagged h
  | string s => exact printable_tagged trivial

theorem Instruction.printable {i : Instruction} (h : ∀ c, i = .pushConstant c → c.ReadBack) :
    i.toJson.Printable := by
  cases i with
  | pushConstant c => exact printable_tagged (Constant.printable (h c rfl))
  | loadLocal slot k => exact printable_tagged (printable_pair (printable_uint16 slot) trivial)
  | storeLocal slot k => exact printable_tagged (printable_pair (printable_uint16 slot) trivial)
  | invoke kind m =>
    exact printable_tagged (printable_pair trivial ⟨trivial, trivial, trivial, trivial⟩)
  | field access f =>
    exact printable_tagged (printable_pair trivial ⟨trivial, trivial, trivial, trivial⟩)
  | new c => exact printable_tagged trivial
  | checkCast t => exact printable_tagged trivial
  | branch c l => exact printable_tagged (printable_pair trivial (printable_uint32 l.id))
  | ret kind => cases kind <;> exact printable_tagged trivial
  | label l => exact printable_tagged (printable_uint32 l.id)
  | raw r =>
    exact printable_tagged ⟨printable_uint8 r.opcode, printable_ofList fun b _ => printable_uint8 b,
      printable_uint8 r.pops, printable_uint8 r.pushes, trivial⟩
  | dup | dupX1 | dupX2 | swap | pop | pop2 => trivial

theorem Field.printable (f : Field) : f.toJson.Printable :=
  ⟨trivial, trivial, printable_uint16 f.flags.bits, trivial⟩

theorem Method.printable {m : Method} (h : m.Literals Constant.ReadBack) : m.toJson.Printable :=
  ⟨trivial, trivial, printable_uint16 m.flags.bits, printable_uint16 m.maxStack,
    printable_uint16 m.maxLocals, printable_ofList fun i hi => Instruction.printable (h i hi),
    trivial⟩

theorem ClassDefinition.printable {c : ClassDefinition} (h : c.Literals Constant.ReadBack) :
    c.toJson.Printable :=
  ⟨trivial, trivial, printable_ofList fun f _ => f.printable,
    printable_ofList fun m hm => Method.printable (h m hm), trivial, trivial⟩

namespace ClassDefinition

/-- A class is found again in what is read where its JSON form was printed: by any library that
reads strings, integers, truth values, arrays, objects and finite floats as they were, and by this
one, on one line and indented, if it does so for the floats there are. So it is if the class was
itself decoded from JSON. -/
theorem survives_json (c : ClassDefinition) :
    (c.Literals Constant.Finite →
      (∀ v, c.toJson.Reread v → ofJson v = .ok c) ∧
      ∀ u, ofJson u = .ok c → ∀ v, c.toJson.Reread v → ofJson v = ofJson u) ∧
    (c.Literals Constant.ReadBack →
      (parse? c.toJson.compact).map ofJson = some (.ok c) ∧
      (parse? c.toJson.indented).map ofJson = some (.ok c)) := by
  refine ⟨fun hfinite => ⟨Recovers.classDefinition hfinite, fun u hu v hv => ?_⟩, fun hread => ?_⟩
  · rw [hu]
    exact Recovers.classDefinition hfinite v hv
  · have hfinite : c.Literals Constant.Finite := fun m hm i hi l hl => (hread m hm i hi l hl).finite
    obtain ⟨⟨v, hparse, hv⟩, w, hparse', hw⟩ := parse_printed (ClassDefinition.printable hread)
    rw [hparse, hparse', Option.map_some, Option.map_some,
      Recovers.classDefinition hfinite v hv, Recovers.classDefinition hfinite w hw]
    exact ⟨rfl, rfl⟩

def variedMethod : Method where
  name := .valueOf
  signature := ⟨[.ref (.objectArray 1 .string), .long], none⟩
  flags := Flags.ofBits _ staticFlag
  maxStack := 2
  maxLocals := 3
  code := [.loadLocal 0 .reference, .checkCast (.objectArray 1 .string), .pop,
    .pushConstant (.string "\"\\\n\x01"), .branch .ifNull ⟨4294967295⟩,
    .pushConstant (.long (-9223372036854775808)),
    .invoke .static ⟨.long, .valueOf, ⟨[.long], none⟩⟩,
    .label ⟨4294967295⟩, .raw ⟨0x11, [0xff, 0x00], 0, 1⟩, .pop, .ret none]

def variedClass : ClassDefinition where
  name := .integer
  superName := .number
  fields := [⟨.get, .ref (.object .string), Flags.ofBits _ staticFlag⟩]
  methods := [variedMethod]
  woven := true

theorem variedClass_survives : (parse? variedClass.toJson.compact).map ofJson =
      some (.ok variedClass) ∧ variedClass.woven = true ∧
    ∃ v, variedClass.toJson.Reread v ∧ ofJson v = .ok variedClass := by
  have hread : variedClass.Literals Constant.ReadBack := by
    rintro m hm i hi c rfl
    obtain rfl := List.mem_singleton.1 hm
    simp [variedMethod] at hi
    rcases hi with rfl | rfl <;> trivial
  have hfinite : variedClass.Literals Constant.Finite :=
    fun m hm i hi l hl => (hread m hm i hi l hl).finite
  obtain ⟨⟨v, -, hv⟩, -⟩ := parse_printed (ClassDefinition.printable hread)
  exact ⟨((survives_json variedClass).2 hread).1, rfl, v, hv,
    ((survives_json variedClass).1 hfinite).1 v hv⟩

end ClassDefinition

end CodeWeaving
