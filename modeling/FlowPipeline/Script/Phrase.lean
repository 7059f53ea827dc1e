import FlowPipeline.Script.Members

/-! # Phrases

What scripts are made of. The last of the phrases are repetitions, which the other phrases use for
what may stand any number of times.
-/

namespace FlowPipeline.Script

/-- The phrases. Where two readings of a text are equally good, the one with the earlier phrases is
taken. -/
inductive Phrase where
  | script | exportStatement | exportOfModule | exportedNames | exportedName | outerName
  | declaration | importTerm | importStatement | importedBindings | sourceClause | importOfModule
  | importedNames | importedName | importAttributes | statement | expressionStatement
  | variableDeclaration | lexicalDeclaration | declarator | block | elseBranch | ifStatement
  | switchStatement | forStatement | forEachStatement | forEachHeader | whileStatement | doStatement
  | tryStatement | withStatement | breakStatement | continueStatement | debuggerStatement
  | returnStatement | throwStatement | emptyStatement | labelledStatement | switchBody | switchCase
  | defaultCase | catchClause | finallyClause | parenthesized | expression | primary
  | yieldExpression | object | objectPattern | patternWithDefault | fieldWithDefault | array
  | arrayPattern | qualifiedName | classExpression | classDeclaration | heritage
  | functionExpression | functionDeclaration | generatorExpression | generatorDeclaration
  | arrowFunction | signature | parameter | optionalMark | call | construction | awaitExpression
  | member | index | assignment | updatedOperand | updatingAssignment | initialValue | destructuring
  | spread | ternary | binary | unary | step | sequence | text | template | templateHole
  | regularExpression | metaProperty | arguments | decorator | decoratorMember | decoratorCall
  | classBody | parameters | staticBlock | pattern | restPattern | method | pair | pairPattern
  | propertyName | computedName | field | importedBinding | nonNull | methodSignature
  | abstractMethod | functionSignature | decoratorParentheses | typeAssertion | asExpression
  | satisfiesExpression | instantiation | requiredModule | extendsClause | base | implementsClause
  | ambientDeclaration | abstractClass | moduleDeclaration | namespaceDeclaration | moduleContents
  | importAlias | qualifiedType | interfaceDeclaration | extendedTypes | enumDeclaration | enumBody
  | enumValue | typeAlias | accessModifier | overrideModifier | requiredParameter
  | optionalParameter | parameterName | ascriptionWithoutOption | ascriptionWithOption
  | optionalAscription | ascription | importMember | importCall | asserted | assertedResult | type
  | namedElement | optionalElement | optionalType | restType | tupleElement | constructorType
  | primaryType | typeHole | templateType | inferredType | conditionalType | genericType | predicate
  | predicateResult | queryMember | queryIndex | queryCall | queryInstantiation | typeQuery
  | keyQuery | lookupType | mappedKey | literalType | signedNumber | anyType | maybeType
  | parenthesizedType | predefinedType | typeArguments | objectType | callSignature
  | propertySignature | typeParameters | typeParameter | defaultType | constraint
  | constructSignature | indexSignature | arrayType | tupleType | readonlyType | unionType
  | intersectionType | functionType | statements | decorators | moreExportedNames
  | moreImportedNames | moreDeclarators | cases | moreMembers | moreFields | moreItems
  | moreElements | moreExpressions | doubleTextParts | singleTextParts | templateParts
  | classMembers | moreParameters | moreBases | moreTypes | moreExtendedTypes | moreEnumMembers
  | templateTypeParts | moreTypeMembers | moreTypeParameters | moreTupleElements
deriving DecidableEq, Repr

namespace Phrase

instance : Numbered Phrase := ⟨Phrase.ctorIdx⟩

/-- All phrases, in their order. -/
def all : List Phrase := [
  script, exportStatement, exportOfModule, exportedNames, exportedName, outerName, declaration,
  importTerm, importStatement, importedBindings, sourceClause, importOfModule, importedNames,
  importedName, importAttributes, statement, expressionStatement, variableDeclaration,
  lexicalDeclaration, declarator, block, elseBranch, ifStatement, switchStatement, forStatement,
  forEachStatement, forEachHeader, whileStatement, doStatement, tryStatement, withStatement,
  breakStatement, continueStatement, debuggerStatement, returnStatement, throwStatement,
  emptyStatement, labelledStatement, switchBody, switchCase, defaultCase, catchClause,
  finallyClause, parenthesized, expression, primary, yieldExpression, object, objectPattern,
  patternWithDefault, fieldWithDefault, array, arrayPattern, qualifiedName, classExpression,
  classDeclaration, heritage, functionExpression, functionDeclaration, generatorExpression,
  generatorDeclaration, arrowFunction, signature, parameter, optionalMark, call, construction,
  awaitExpression, member, index, assignment, updatedOperand, updatingAssignment, initialValue,
  destructuring, spread, ternary, binary, unary, step, sequence, text, template, templateHole,
  regularExpression, metaProperty, arguments, decorator, decoratorMember, decoratorCall,
  classBody, parameters, staticBlock, pattern, restPattern, method, pair, pairPattern,
  propertyName, computedName, field, importedBinding, nonNull, methodSignature, abstractMethod,
  functionSignature, decoratorParentheses, typeAssertion, asExpression, satisfiesExpression,
  instantiation, requiredModule, extendsClause, base, implementsClause, ambientDeclaration,
  abstractClass, moduleDeclaration, namespaceDeclaration, moduleContents, importAlias,
  qualifiedType, interfaceDeclaration, extendedTypes, enumDeclaration, enumBody, enumValue,
  typeAlias, accessModifier, overrideModifier, requiredParameter, optionalParameter,
  parameterName, ascriptionWithoutOption, ascriptionWithOption, optionalAscription, ascription,
  importMember, importCall, asserted, assertedResult, type, namedElement, optionalElement,
  optionalType, restType, tupleElement, constructorType, primaryType, typeHole, templateType,
  inferredType, conditionalType, genericType, predicate, predicateResult, queryMember, queryIndex,
  queryCall, queryInstantiation, typeQuery, keyQuery, lookupType, mappedKey, literalType,
  signedNumber, anyType, maybeType, parenthesizedType, predefinedType, typeArguments, objectType,
  callSignature, propertySignature, typeParameters, typeParameter, defaultType, constraint,
  constructSignature, indexSignature, arrayType, tupleType, readonlyType, unionType,
  intersectionType, functionType, statements, decorators, moreExportedNames, moreImportedNames,
  moreDeclarators, cases, moreMembers, moreFields, moreItems, moreElements, moreExpressions,
  doubleTextParts, singleTextParts, templateParts, classMembers, moreParameters, moreBases,
  moreTypes, moreExtendedTypes, moreEnumMembers, templateTypeParts, moreTypeMembers,
  moreTypeParameters, moreTupleElements]

/-- Whether a phrase is a repetition. Its parts belong to the phrase around it. -/
def isRepetition (p : Phrase) : Bool := statements.ctorIdx ≤ p.ctorIdx

end Phrase

abbrev Phrases := Members Phrase

end FlowPipeline.Script
