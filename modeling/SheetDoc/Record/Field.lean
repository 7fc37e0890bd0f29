namespace SheetDoc

inductive Field
  | context | file | description | commentLine | uid | group | groupDescription | access
  | deprecated | since | author | link | see | todo | type | ignore | parameter | property
  | returns | content | output | throw | sample | aliasOf | aliased | require | usedBy | unknown
  | extra | tags
  /-- A name that is not a field. -/
  | other (name : String)
  deriving DecidableEq, Repr

namespace Field

/-- The name by which a tag states its field. -/
def name : Field → String
  | context => "context"
  | file => "file"
  | description => "description"
  | commentLine => "comment_line"
  | uid => "uid"
  | group => "group"
  | groupDescription => "group_description"
  | access => "access"
  | deprecated => "deprecated"
  | since => "since"
  | author => "author"
  | link => "link"
  | see => "see"
  | todo => "todo"
  | type => "type"
  | ignore => "ignore"
  | parameter => "parameter"
  | property => "property_"
  | returns => "return_"
  | content => "content"
  | output => "output"
  | throw => "throw"
  | sample => "example"
  | aliasOf => "alias"
  | aliased => "aliased"
  | require => "require"
  | usedBy => "used_by"
  | unknown => "unknown"
  | extra => "extra"
  | tags => "annotations"
  | other name => name

def all : List Field :=
  [context, file, description, commentLine, uid, group, groupDescription, access, deprecated,
    since, author, link, see, todo, type, ignore, parameter, property, returns, content, output,
    throw, sample, aliasOf, aliased, require, usedBy, unknown, extra, tags]

def ofName (word : String) : Field := (all.find? (·.name == word)).getD (.other word)

end Field

end SheetDoc
