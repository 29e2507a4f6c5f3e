/-
Classes as a class file describes them: a pool of constants, the indices of the class and of its
super class in it, and the fields and methods. Names are indices into the pool; the functions here
look them up.
-/
import ClassMachine.ClassFile.Code

namespace ClassMachine

/-- A field or a method. -/
structure Member where
  accessFlags : UInt16
  nameIndex : UInt16
  descriptorIndex : UInt16
  attributes : List Attribute
  deriving DecidableEq

/-- A class. -/
structure ClassFile where
  minorVersion : UInt16
  majorVersion : UInt16
  pool : Pool
  accessFlags : UInt16
  thisClass : UInt16
  /-- Zero for the class that has no super class. -/
  superClass : UInt16
  interfaces : List UInt16
  fields : List Member
  methods : List Member
  attributes : List Attribute
  deriving DecidableEq

/-- Why a method has no code to run. -/
inductive CodeError where
  | missing (error : Attribute.Missing)
  | malformed (error : ClassFile.FormatError)
  deriving DecidableEq

/-- The error in words. -/
def CodeError.message : CodeError → String
  | missing error => error.message
  | malformed error => "malformed code attribute: " ++ error.message

namespace Member

/-- The name of the member. -/
def name (member : Member) (pool : Pool) : Except ResolveError String :=
  pool.utf8 member.nameIndex

/-- The descriptor of the member. -/
def descriptor (member : Member) (pool : Pool) : Except ResolveError String :=
  pool.utf8 member.descriptorIndex

/-- Whether the member belongs to the class and not to its instances. -/
def isStatic (member : Member) : Bool :=
  member.accessFlags &&& 0x0008 != 0

/-- Name and descriptor, as far as they can be looked up. -/
def label (member : Member) (pool : Pool) : String :=
  (member.name pool).toOption.getD "?" ++ (member.descriptor pool).toOption.getD ""

/-- The attribute of a field that has the given name. -/
def fieldAttribute (field : Member) (pool : Pool) (name : String) :
    Except Attribute.Missing Attribute :=
  Attribute.find field.attributes pool name ("field " ++ field.label pool)

/-- The attribute of a method that has the given name. -/
def methodAttribute (method : Member) (pool : Pool) (name : String) :
    Except Attribute.Missing Attribute :=
  Attribute.find method.attributes pool name ("method " ++ method.label pool)

/-- The code of a method. -/
def code (method : Member) (pool : Pool) : Except CodeError Code := do
  let attr ← (method.methodAttribute pool "Code").mapError .missing
  (Code.decode attr.info).mapError .malformed

end Member

namespace ClassFile

/-- The number every class file starts with. -/
def magic : UInt32 :=
  0xCAFEBABE

/-- The name of the class. -/
def name (classFile : ClassFile) : Except ResolveError String :=
  classFile.pool.className classFile.thisClass

/-- The name of the super class, `none` if there is no super class. -/
def superName (classFile : ClassFile) : Except ResolveError (Option String) := do
  if classFile.superClass = 0 then
    return none
  else
    return some (← classFile.pool.className classFile.superClass)

/-- Whether the member goes by the given name and descriptor. -/
def goesBy (classFile : ClassFile) (name descriptor : String) (member : Member) : Bool :=
  match member.name classFile.pool, member.descriptor classFile.pool with
  | .ok foundName, .ok foundDescriptor => foundName == name && foundDescriptor == descriptor
  | _, _ => false

/-- The first method that goes by the given name and descriptor. -/
def findMethod? (classFile : ClassFile) (name descriptor : String) : Option Member :=
  classFile.methods.find? (classFile.goesBy name descriptor)

/-- The place of the first method that goes by the given name and descriptor. -/
def findMethodIdx? (classFile : ClassFile) (name descriptor : String) : Option Nat :=
  classFile.methods.findIdx? (classFile.goesBy name descriptor)

/-- The attribute of the class that has the given name. -/
def classAttribute (classFile : ClassFile) (name : String) : Except Attribute.Missing Attribute :=
  Attribute.find classFile.attributes classFile.pool name
    ("class " ++ classFile.name.toOption.getD "?")

end ClassFile

end ClassMachine
